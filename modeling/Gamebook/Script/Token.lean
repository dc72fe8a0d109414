import Gamebook.Text.Escape
import Gamebook.Text.Quoted
import Gamebook.Text.Space
import Gamebook.Text.Span

/-!
# Tokens of scripts

A condition or an instruction is read as a row of tokens: operators, and words of ordinary or
escaped characters. Spaces, tabs and line breaks separate words and mean nothing else. Of two
operators that fit the longer is taken, and a word goes on as long as it can. A character that
starts no token is reported by itself, and reading goes on behind it.

Lexemes and the gaps between them tile the text.
-/

namespace Gamebook.Script

/-- A token of a condition or an instruction. -/
inductive Token where
  /-- `+=` -/
  | addAssign
  /-- `-=` -/
  | removeAssign
  /-- `==` -/
  | equals
  /-- `<>` -/
  | notEquals
  /-- `<=` -/
  | atMost
  /-- `>=` -/
  | atLeast
  /-- `=` -/
  | assign
  /-- `<` -/
  | less
  /-- `>` -/
  | more
  /-- `+` -/
  | plus
  /-- `-` -/
  | minus
  /-- `*` -/
  | star
  /-- `/` -/
  | slash
  /-- `@` -/
  | at
  /-- `#` -/
  | hash
  /-- `:` -/
  | colon
  /-- `(` -/
  | openParen
  /-- `)` -/
  | closeParen
  /-- `,` -/
  | comma
  /-- A run of ordinary characters, with its escapes resolved. -/
  | word (text : String)
  deriving DecidableEq, Repr

/-- The operators with their spelling, the longer ones first. -/
def operators : List (List Char × Token) :=
  [(['+', '='], .addAssign), (['-', '='], .removeAssign), (['=', '='], .equals),
    (['<', '>'], .notEquals), (['<', '='], .atMost), (['>', '='], .atLeast), (['='], .assign),
    (['<'], .less), (['>'], .more), (['+'], .plus), (['-'], .minus), (['*'], .star),
    (['/'], .slash), (['@'], .at), (['#'], .hash), ([':'], .colon), (['('], .openParen),
    ([')'], .closeParen), ([','], .comma)]

/-- The text of a token as a message shows it. -/
def Token.text : Token → String
  | .word text => text
  | t => match operators.find? fun entry => entry.2 == t with
    | some (spelling, _) => String.ofList spelling
    | none => ""

/-! ### Words and gaps -/

/-- Whether a character separates tokens. -/
def isGap (c : Char) : Bool :=
  c == ' ' || c == '\t' || c == '\r' || c == '\n'

/-- The characters that no word holds unescaped, gaps apart. -/
def reserved : List Char :=
  ['+', '-', '*', '/', '@', '#', ':', '(', ')', ',', '=', '<', '>', '&', '|', '!', '?', '[', ']',
    '\x7b', '\x7d', '"', '\\']

/-- Whether a word may hold a character as it is. -/
def isWordChar (c : Char) : Bool :=
  !isGap c && !reserved.contains c

/-- The number of characters of the word at the head of a text. A backslash takes any character
into the word but a line break. -/
def wordLength : List Char → Nat
  | '\\' :: c :: rest => if c == '\r' || c == '\n' then 0 else wordLength rest + 2
  | c :: rest => if isWordChar c then wordLength rest + 1 else 0
  | [] => 0

/-! ### Lexemes -/

/-- What stands at a place between gaps. -/
inductive Lexeme where
  /-- A token. -/
  | token (t : Token)
  /-- A character that starts none. -/
  | unexpected (c : Char)
  deriving DecidableEq, Repr

/-- The lexeme at the head of a text, and how many characters behind the first belong to it. -/
def Lexeme.ofText (c : Char) (rest : List Char) : Lexeme × Nat :=
  match operators.find? fun entry => entry.1.isPrefixOf (c :: rest) with
  | some (spelling, t) => (.token t, spelling.length - 1)
  | none => match wordLength (c :: rest) with
    | 0 => (.unexpected c, 0)
    | n + 1 => (.token (.word (String.ofList (Text.unescape (c :: rest.take n)))), n)

/-- The lexemes of a text that starts at an offset. -/
def lexemesFrom (start : Nat) : List Char → List (Located Lexeme)
  | [] => []
  | c :: rest =>
    if isGap c then lexemesFrom (start + c.utf8Size) rest
    else
      let (lexeme, more) := Lexeme.ofText c rest
      let length := Text.byteLength (c :: rest.take more)
      ⟨lexeme, Span.ofLength start length⟩ :: lexemesFrom (start + length) (rest.drop more)
termination_by cs => cs.length
decreasing_by
  · simp
  · simp only [List.length_drop, List.length_cons]
    omega

/-- The lexemes of a text. -/
def lexemes (cs : List Char) : List (Located Lexeme) :=
  lexemesFrom 0 cs

/-- The tokens among some lexemes. -/
def tokensOf (ls : List (Located Lexeme)) : List (Located Token) :=
  ls.filterMap fun l => match l.value with
    | .token t => some ⟨t, l.span⟩
    | .unexpected _ => none

/-- The characters among some lexemes that start no token. -/
def unexpectedOf (ls : List (Located Lexeme)) : List (Located Char) :=
  ls.filterMap fun l => match l.value with
    | .token _ => none
    | .unexpected c => some ⟨c, l.span⟩

end Gamebook.Script
