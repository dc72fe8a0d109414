import Gamebook.Text.Escape
import Gamebook.Text.Space
import Gamebook.Value

/-!
# Literals of values

A value is written as its atoms, separated by commas, and its integer behind a `#`:
`red,big,#5`. An escape keeps a comma or a leading `#` inside an atom, and white space around an
atom is dropped.

`ofLiteral` passes over a `#` that no numeral follows, `ofLiteral?` refuses it. `literal` writes a
value on one line; reading gives the value back when no atom starts or ends with white space.
-/

namespace Gamebook

namespace Value

/-! ### Reading -/

/-- One piece of a literal: a text atom, or what stood behind a `#`. -/
inductive Piece where
  | atom (text : List Char)
  | number (numeral : List Char)
  deriving DecidableEq, Repr

/-- The piece that ends where a separator stands. -/
def Piece.ofText (numeric : Bool) (text : List Char) : Piece :=
  if numeric then .number (Text.trim text) else .atom (Text.trim text)

/-- The pieces of a literal of which `current` is already read. A `#` with only white space in
front of it makes the piece numeric. -/
def pieces (numeric : Bool) (current : List Char) : List Char → List Piece
  | [] => [.ofText numeric current]
  | ['\\'] => [.ofText numeric (current ++ ['\\'])]
  | '\\' :: c :: rest => pieces numeric (current ++ [Text.escaped c]) rest
  | ',' :: rest => .ofText numeric current :: pieces false [] rest
  | '#' :: rest =>
    if Text.isBlank current && !numeric then pieces true [] rest
    else pieces numeric (current ++ ['#']) rest
  | c :: rest => pieces numeric (current ++ [c]) rest

/-- Take up one piece; a `#` without a numeral is passed over. -/
def absorb (v : Value) : Piece → Value
  | .atom text => (v.add (String.ofList text)).1
  | .number numeral => match Decimal.toWord? numeral with
    | some n => { v with integer := n }
    | none => v

/-- The value of a literal, without what cannot be read. -/
def ofLiteral (s : String) : Value :=
  ((pieces false [] s.toList).foldl absorb empty).clearDirty

/-- A `#` in a literal that no numeral follows. -/
structure BadInteger where
  /-- What stands behind the `#`. -/
  numeral : String
  deriving DecidableEq, Repr

/-- The text of the complaint. -/
def BadInteger.message (e : BadInteger) : String :=
  s!"invalid integer literal: \"{e.numeral}\""

/-- Take up one piece, or refuse it. -/
def absorb? (v : Value) : Piece → Except BadInteger Value
  | .number numeral => match Decimal.toWord? numeral with
    | some n => .ok { v with integer := n }
    | none => .error ⟨String.ofList numeral⟩
  | piece => .ok (v.absorb piece)

/-- The value of a literal in which every `#` has its numeral. -/
def ofLiteral? (s : String) : Except BadInteger Value :=
  ((pieces false [] s.toList).foldlM absorb? empty).map clearDirty

/-! ### Writing -/

/-- Escape the characters of an atom; `first` holds at its first character only. -/
def escapeAtom (first : Bool) : List Char → List Char
  | [] => []
  | c :: rest =>
    (if c = '\\' then ['\\', '\\']
      else if c = ',' then ['\\', ',']
      else if c = '\n' then ['\\', 'n']
      else if first && c = '#' then ['\\', '#']
      else [c]) ++ escapeAtom false rest

/-- Each atom with a comma behind it, then the integer. -/
def literalChars (v : Value) : List Char :=
  (v.atoms.flatMap fun atom => escapeAtom true atom.toList ++ [',']) ++
    '#' :: Decimal.ofWord v.integer

/-- The literal of a value. -/
def literal (v : Value) : String :=
  String.ofList v.literalChars

end Value

end Gamebook
