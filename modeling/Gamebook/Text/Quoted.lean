import Gamebook.Text.Printable

/-!
# Quoted texts

Messages quote authored text between quotation marks, in a form that is readable and shows every
character: the quotation mark, the backslash, tabs, line breaks and NUL have short escapes, and any
other character that does not show is written as its number in hexadecimal.
-/

namespace Gamebook.Text

/-- A number in hexadecimal. -/
def hex (n : Nat) : List Char :=
  Nat.toDigits 16 n

/-- One character between quotation marks of a kind. -/
def quoteChar (mark c : Char) : List Char :=
  if c = '\x00' then ['\\', '0']
  else if c = '\t' then ['\\', 't']
  else if c = '\r' then ['\\', 'r']
  else if c = '\n' then ['\\', 'n']
  else if c = '\\' ∨ c = mark then ['\\', c]
  else if isPrintable c then [c]
  else ['\\', 'u', '\x7b'] ++ hex c.toNat ++ ['\x7d']

/-- A text in double quotation marks. -/
def quoted (cs : List Char) : String :=
  String.ofList ('"' :: cs.flatMap (quoteChar '"') ++ ['"'])

/-- A character in single quotation marks. -/
def quotedChar (c : Char) : String :=
  String.ofList ('\'' :: quoteChar '\'' c ++ ['\''])

end Gamebook.Text
