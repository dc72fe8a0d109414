import Gamebook.Diagnostic
import Gamebook.Page
import Gamebook.Script.Chain

/-!
# Bodies of pages

The body of a page declares verbs, each followed by what it does:

    [:open][:unlock]
    ?key { !door=open "The door opens." }{ "It is locked." }

A condition opens a scope. With braces it is explicit and ends at its closing brace, and a second
pair of braces holds the other branch. Without braces it is implied and ends at the next condition
or verb of its level.

A condition in front of the first verb, or directly in front of the declaration of another one,
stands above the verbs: it guards every verb declared while it is in scope. Such conditions are
*pending*, and all that are in scope at a declaration are folded into the script at the verb's root.

Reading never stops at a problem. A body is read statement by statement, each from its first
character, and `Draft.step` answers how many characters behind that one the statement takes.
-/

namespace Gamebook

open Script

/-! ### Problems -/

/-- What may be wrong with a body. -/
inductive BodyProblem where
  | unexpectedCharacter (c : Char)
  | unterminatedText
  | textOutsideVerb
  | instructionOutsideVerb
  | emptyCondition
  | scopeNotClosed
  | topLevelNotClosed
  | verbExpected
  | unmatchedBracket
  | namelessVerb
  | unmatchedBrace
  | badExpression (expression : String) (e : SyntaxError)
  | pageError (e : PageError)
  deriving DecidableEq, Repr

/-- Conditions without effect and scopes left open are pardoned. -/
def BodyProblem.severity : BodyProblem → Severity
  | emptyCondition | scopeNotClosed | topLevelNotClosed => .warning
  | _ => .error

/-- The text of a problem. -/
def BodyProblem.message : BodyProblem → String
  | unexpectedCharacter c => s!"unexpected character {Text.quotedChar c} at start of statement"
  | unterminatedText => "unterminated text block"
  | textOutsideVerb => "text outside of any verb"
  | instructionOutsideVerb => "instruction outside of any verb"
  | emptyCondition => "condition has no body"
  | scopeNotClosed => "scope opened with `\x7b` is never closed"
  | topLevelNotClosed => "top-level scope is never closed"
  | verbExpected => "expected verb declaration `[:name]`"
  | unmatchedBracket => "unmatched `[` in verb declaration"
  | namelessVerb => "verb declaration without a name"
  | unmatchedBrace => "unmatched `\x7d`"
  | badExpression expression e => s!"invalid expression {expression}: {e.message}"
  | pageError e => e.message

/-! ### Drafts -/

/-- A scope inside of a verb. -/
structure Scope where
  /-- The block whose children are being read. -/
  block : Nat
  /-- Whether the scope has no braces. -/
  implied : Bool
  deriving DecidableEq, Repr

/-- A verb whose body is being read. -/
structure OpenVerb where
  names : List String
  root : Nat
  /-- The scopes open inside of the verb, innermost first. -/
  inner : List Scope
  deriving DecidableEq, Repr

/-- The block that the next statement of a verb belongs to. -/
def OpenVerb.scope (v : OpenVerb) : Nat :=
  (v.inner.head?.map (·.block)).getD v.root

/-- A condition above the verbs. -/
structure Pending where
  expression : String
  /-- How many explicit conditions stand around it. -/
  depth : Nat
  explicit : Bool
  deriving DecidableEq, Repr

/-- A page of which a part of the body is read. -/
structure Draft where
  page : Page
  /-- The definition that the body belongs to. -/
  origin : Span
  diagnostics : List Diagnostic := []
  verb : Option OpenVerb := none
  /-- The conditions above the verbs that are in scope, newest first. -/
  pending : List Pending := []
  /-- How many explicit conditions above the verbs are open. -/
  depth : Nat := 0
  deriving DecidableEq, Repr

namespace Draft

/-- Report a problem; `near` is the body from where it was noticed. -/
def report (d : Draft) (near : List Char) (p : BodyProblem) : Draft :=
  let place := match near.take 24 with
    | [] => "at end of definition"
    | snippet => s!"near {Text.quoted snippet}"
  let label := s!"in [{d.page.name}] {place}"
  { d with diagnostics := d.diagnostics ++ [⟨p.severity, d.origin, p.message, some label⟩] }

/-- Report the errors in a stored script. -/
def validate (d : Draft) (near : List Char) (expression : String) : Draft :=
  (Chain.ofText expression).2.foldl (fun d e => d.report near (.badExpression expression e.value)) d

/-! ### Scopes -/

/-- Put a block into the scope at hand of a verb. -/
def addBlock (d : Draft) (v : OpenVerb) (b : Block) : Draft × Nat :=
  let (page, id) := d.page.insertChild v.scope b
  ({ d with page }, id)

/-- Leave a scope for good. -/
def leave (d : Draft) (s : Scope) : Draft :=
  if (d.page.block? s.block).any fun b => !b.hasChildren then d.report [] .emptyCondition else d

/-- Leave the innermost scopes as long as they are implied. -/
def leaveImplied (d : Draft) : List Scope → Draft × List Scope
  | [] => (d, [])
  | s :: outer => if s.implied then (d.leave s).leaveImplied outer else (d, s :: outer)

/-- Leave the implied scopes of the verb at hand. -/
def closeImplied (d : Draft) : Draft :=
  match d.verb with
  | none => d
  | some v =>
    let (d, inner) := d.leaveImplied v.inner
    { d with verb := some { v with inner } }

/-- End the verb at hand and declare it on the page. -/
def flushVerb (d : Draft) : Draft :=
  let d := d.closeImplied
  match d.verb with
  | none => d
  | some v =>
    let d := if v.inner.isEmpty then d else d.report [] .scopeNotClosed
    let d := { d with verb := none }
    match d.page.addVerb ⟨v.names.headD "", v.names, v.root⟩ with
    | .ok page => { d with page }
    | .error e => d.report [] (.pageError e)

/-! ### Statements -/

/-- The characters that start a statement. -/
def statementStarts : List Char :=
  ['"', '!', '?', '[', '\x7b', '\x7d']

/-- The number of characters in front of the next statement. -/
def statementLength (cs : List Char) : Nat :=
  (Text.find (Text.startsWithOneOf statementStarts) cs).getD cs.length

/-- A quoted text. -/
def text (d : Draft) (cs : List Char) : Draft × Nat :=
  match Text.Marker.textBlock.lengthAt? cs with
  | none => (d.report cs .unterminatedText, cs.length - 1)
  | some n =>
    let content := Text.unescape ((cs.take (n - 1)).drop 1)
    let d := match d.verb with
      | some v => (d.addBlock v (.text (String.ofList content))).1
      | none => d.report cs .textOutsideVerb
    (d, n - 1)

/-- An instruction. -/
def instruction (d : Draft) (cs : List Char) : Draft × Nat :=
  let n := statementLength (cs.drop 1)
  let expression := String.ofList (chainText '!' ((cs.drop 1).take n))
  let d := d.validate cs expression
  let d := match d.verb with
    | some v => (d.addBlock v (.script expression)).1
    | none => d.report cs .instructionOutsideVerb
  (d, n)

/-- Put a condition above the verbs. It takes the place of an implied one of its level. -/
def pend (d : Draft) (expression : String) (explicit : Bool) : Draft :=
  { d with
    pending := ⟨expression, d.depth, explicit⟩ ::
      d.pending.filter fun p => p.explicit || p.depth != d.depth
    depth := if explicit then d.depth + 1 else d.depth }

/-- Whether a text begins with the declaration of a verb. -/
def declaresVerb (cs : List Char) : Bool :=
  ['[', ':'].isPrefixOf cs

/-- A condition. -/
def condition (d : Draft) (cs : List Char) : Draft × Nat :=
  let n := statementLength (cs.drop 1)
  let expression := String.ofList (chainText '?' ((cs.drop 1).take n))
  let d := d.validate cs expression
  let behind := cs.drop (n + 1)
  let explicit := behind.head? == some '\x7b'
  let behind := if explicit then behind.drop 1 else behind
  let d := d.closeImplied
  let d := match d.verb with
    | none => d.pend expression explicit
    | some v =>
      -- directly in front of a declaration a condition guards the next verb, not this one
      if v.inner.isEmpty && declaresVerb behind then d.flushVerb.pend expression explicit
      else
        let (d, id) := d.addBlock v (.script expression)
        { d with verb := some { v with inner := ⟨id, !explicit⟩ :: v.inner } }
  (d, if explicit then n + 1 else n)

/-- The names declared at the head of a text, and the text behind them. A declaration that is not
closed takes the rest, and none of the names count. -/
def declarations (d : Draft) (names : List String) :
    List Char → Draft × Option (List String × List Char)
  | '[' :: ':' :: rest => match Text.findClose '[' ']' 0 (':' :: rest) with
    | none => (d.report ('[' :: ':' :: rest) .unmatchedBracket, none)
    | some n =>
      -- `n` counts the colon in front of the name and the bracket behind it
      let name := Text.unescape (Text.trim (rest.take (n - 2)))
      let behind := (':' :: rest).drop n
      if name.isEmpty then
        (d.report ('[' :: ':' :: rest) .namelessVerb).declarations names behind
      else d.declarations (names ++ [String.ofList name]) behind
  | cs => (d, some (names, cs))
termination_by cs => cs.length
decreasing_by
  all_goals
    simp only [List.length_drop, List.length_cons]
    omega

/-- The declaration of a verb. -/
def verbDeclaration (d : Draft) (cs : List Char) : Draft × Nat :=
  if declaresVerb cs then
    match d.declarations [] cs with
    | (d, none) => (d, cs.length - 1)
    | (d, some (names, behind)) =>
      let d := d.flushVerb
      let n := cs.length - behind.length - 1
      if names.isEmpty then (d, n)
      else
        let guard := foldChains (d.pending.reverse.map (·.expression))
        let (page, root) := d.page.addBlock (.script guard)
        ({ d with page, verb := some ⟨names, root, []⟩ }, n)
  else
    let n := match Text.Marker.bracket.lengthAt? cs with
      | some n => n - 1
      | none => statementLength (cs.drop 1)
    (d.report cs .verbExpected, n)

/-- A closing brace: it ends the innermost explicit scope of the verb, or else a condition above
the verbs. -/
def closeScope (d : Draft) (cs : List Char) : Draft × Nat :=
  let d := d.closeImplied
  match d.verb with
  | some ⟨names, root, s :: outer⟩ =>
    let d := d.leave s
    let v : OpenVerb := ⟨names, root, outer⟩
    if (cs.drop 1).head? == some '\x7b' then
      let (d, id) := d.addBlock v .otherwise
      ({ d with verb := some { v with inner := ⟨id, false⟩ :: outer } }, 1)
    else ({ d with verb := some v }, 0)
  | _ =>
    if d.depth = 0 then (d.report cs .unmatchedBrace, 0)
    else
      let d := d.flushVerb
      -- the condition that opened this level goes, with the implied ones behind it
      let pending := (d.pending.dropWhile fun p => !(p.explicit && p.depth + 1 == d.depth)).drop 1
      ({ d with pending, depth := d.depth - 1 }, 0)

/-- Read the statement that starts with the character `c`. -/
def step (d : Draft) (c : Char) (rest : List Char) : Draft × Nat :=
  let cs := c :: rest
  if Text.isSpace c then (d, 0)
  else if c = '"' then d.text cs
  else if c = '!' then d.instruction cs
  else if c = '?' then d.condition cs
  else if c = '[' then d.verbDeclaration cs
  else if c = '\x7d' then d.closeScope cs
  else (d.report cs (.unexpectedCharacter c), statementLength rest)

/-- Read all statements. -/
def run (d : Draft) : List Char → Draft
  | [] => d
  | c :: rest =>
    let (d, n) := d.step c rest
    d.run (rest.drop n)
termination_by cs => cs.length
decreasing_by
  simp only [List.length_drop, List.length_cons]
  omega

/-- End the body. -/
def finish (d : Draft) : Draft :=
  let d := d.flushVerb
  if d.depth = 0 then d else d.report [] .topLevelNotClosed

end Draft

/-- Read the body of a page, with the problems in it. -/
def Page.ofBody (page : Page) (body : String) (origin : Span) : Page × List Diagnostic :=
  let d := (Draft.run { page, origin } body.toList).finish
  ({ d.page with source := body }, d.diagnostics)

end Gamebook
