import Gamebook.Decimal
import Gamebook.Script.Expr
import Gamebook.Script.Reply

/-!
# The grammar of scripts

    expression := term (('+' | '-' | '/' | '*') term)*
    term       := item (',' item)*
    item       := primary ('(' expression? ')')?
    primary    := '@' name | '#' '-'? word | '#' name | name? ':' name | '(' expression ')' | name
    name       := word+
    condition  := expression? comparison expression? | expression
    action     := expression? assignment expression? | expression

The alternatives are tried in this order. A function is applied before operators are, and `#word`
is the integer of a noun unless the word is a numeral.

Parentheses nest, so the grammar refers to itself: the parser for expressions is given for each
depth of nesting, and no row of tokens can nest deeper than it is long.
-/

namespace Gamebook.Script

namespace Parser

/-! ### Names and primaries -/

/-- One or more words; they are joined by single spaces. -/
def name : Parser String :=
  named .name do
    let first ← word
    let more ← many word
    return " ".intercalate (first :: more)

/-- The numeral of a word behind an optional minus sign. It is read first and then negated. -/
def signedNumeral : Parser Int64 := fun ts =>
  let reply : Reply (Bool × String) :=
    (do return ((← optional (token .minus)).isSome, ← word) : Parser (Bool × String)) ts
  match reply.result with
  | none => ⟨none, reply.report⟩
  | some ((negative, digits), rest) => match Decimal.toWord? digits.toList with
    | some n => ⟨some (if negative then -n else n, rest), reply.report⟩
    | none =>
      -- the span of a bad numeral reaches from the sign, if there is one, to the end of the word
      let read := ts.take (ts.length - rest.length)
      let span : Span := ⟨(read.head?.map (·.span.start)).getD 0,
        (read.getLast?.map (·.span.stop)).getD 0⟩
      ⟨none, mergeReports reply.report (some ⟨ts, .badInteger digits span⟩)⟩

/-- The atoms of a noun, as in `@basket`. -/
def deref : Parser Primary :=
  named .dereference do
    token .at
    return .deref (← name)

/-- A number, or the integer of a noun. -/
def numeric : Parser Primary :=
  named .integer do
    token .hash
    orElse (do return .integer (← signedNumeral)) (do return .integerOf (← name))

/-- A verb of a noun, or of the noun at hand. -/
def verbCall : Parser Primary :=
  named .verbCall do
    let noun ← optional name
    token .colon
    return .verbCall noun (← name)

/-- An expression in parentheses. -/
def group (expression : Parser Expr) : Parser Primary := do
  token .openParen
  let e ← expression
  token .closeParen
  return .group e

def primary (expression : Parser Expr) : Parser Primary :=
  orElse deref <| orElse numeric <| orElse verbCall <| orElse (group expression) do
    return .atom (← name)

/-! ### Items, terms and expressions -/

/-- The parentheses of a call, with or without an expression. -/
def arguments (expression : Parser Expr) : Parser (Option Expr) :=
  named .arguments do
    token .openParen
    let e ← optional expression
    token .closeParen
    return e

def item (expression : Parser Expr) : Parser Item := do
  let p ← primary expression
  match ← optional (arguments expression) with
  | none => return .primary p
  | some none => return .invoke p
  | some (some e) => return .apply p e

def term (expression : Parser Expr) : Parser Term := do
  let first ← item expression
  let more ← many do
    token .comma
    item expression
  return .ofItems first more

def operator : Parser Operator :=
  satisfy [.operator] fun
    | .plus => some .union
    | .minus => some .difference
    | .slash => some .intersect
    | .star => some .concat
    | _ => none

/-- Terms between operators, with a given parser for what stands in parentheses. -/
def terms (expression : Parser Expr) : Parser Expr := do
  let first ← term expression
  let more ← many do
    let op ← operator
    return (op, ← term expression)
  return .ofTerms first more

/-- Expressions with fewer than `depth` parentheses open at once. -/
def expressionOfDepth : Nat → Parser Expr
  | 0 => fun _ => ⟨none, none⟩
  | depth + 1 => terms (expressionOfDepth depth)

/-- An expression. -/
def expression : Parser Expr := fun ts =>
  expressionOfDepth (ts.length + 1) ts

/-! ### Conditions and actions -/

/-- The comparisons of conditions. Two of the signs change values in actions. -/
def comparison : Parser Comparison :=
  satisfy [.comparison] fun
    | .addAssign | .assign => some .contains
    | .removeAssign => some .notContains
    | .equals => some .equals
    | .notEquals => some .notEquals
    | .atMost => some .atMost
    | .atLeast => some .atLeast
    | .more => some .more
    | .less => some .less
    | _ => none

/-- The signs by which actions change values. -/
def assignment : Parser Change :=
  satisfy [.assignment] fun
    | .addAssign => some .add
    | .removeAssign => some .remove
    | .assign => some .assign
    | _ => none

/-- A condition, to the end of the tokens. -/
def condition : Parser Condition := do
  let compare : Parser Condition := do
    let subject ← optional expression
    let c ← comparison
    return .compare subject c (← optional expression)
  let c ← orElse compare do
    return .bare (← expression)
  endOfInput
  return c

/-- An action, to the end of the tokens. -/
def action : Parser Action := do
  let change : Parser Action := do
    let target ← optional expression
    let c ← assignment
    return .change target c (← optional expression)
  let a ← orElse change do
    return .bare (← expression)
  endOfInput
  return a

end Parser

end Gamebook.Script
