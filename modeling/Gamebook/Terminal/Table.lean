import Gamebook.Text.Columns
import Gamebook.Text.Split

/-!
# Tables

Tables are drawn with the characters of a typewriter. Each column is as wide as its widest line,
with a blank on both sides. A line break in a cell makes a further line of its row.
-/

namespace Gamebook

/-- A table. All rows have as many cells as the header. -/
structure Table where
  header : List String
  rows : List (List String)

namespace Table

/-- The lines of a cell. -/
def cellLines (cell : String) : List (List Char) :=
  Text.split '\n' cell.toList

/-- The columns that a cell takes. -/
def cellWidth (cell : String) : Nat :=
  ((cellLines cell).map Text.columns).foldl max 0

/-- The widths of the columns of a table, without the blanks. -/
def widths (t : Table) : List Nat :=
  t.rows.foldl (fun ws row => List.zipWith max ws (row.map cellWidth))
    (t.header.map fun cell => max 1 (cellWidth cell))

/-- A text with blanks behind it, up to a width. -/
def pad (width : Nat) (cs : List Char) : List Char :=
  cs ++ List.replicate (width - Text.columns cs) ' '

/-- A ruled line: `fill` over every column, `between` the columns, and an end on both sides. -/
def rule (left fill between right : Char) (ws : List Nat) : List Char :=
  left :: [between].intercalate (ws.map fun w => List.replicate (w + 2) fill) ++ [right]

/-- One line of a row, given a text for every column. -/
def line (ws : List Nat) (texts : List (List Char)) : List Char :=
  '|' :: ['|'].intercalate (List.zipWith (fun w cs => ' ' :: pad w cs ++ [' ']) ws texts) ++ ['|']

/-- The lines of a row. -/
def rowLines (ws : List Nat) (row : List String) : List (List Char) :=
  let cells := row.map cellLines
  let height := (cells.map List.length).foldl max 0
  (List.range height).map fun i => line ws (cells.map fun lines => lines.getD i [])

/-- The lines of a table. -/
def lines (t : Table) : List (List Char) :=
  let ws := t.widths
  let edge := rule '+' '-' '+' '+' ws
  [edge] ++ rowLines ws t.header ++ [rule '+' '=' '=' '+' ws] ++
    [rule '|' '-' '+' '|' ws].intercalate (t.rows.map (rowLines ws)) ++ [edge]

/-- The text of a table, a line break behind every line. -/
def text (t : Table) : String :=
  String.ofList (t.lines.flatMap fun line => line ++ ['\n'])

end Table

end Gamebook
