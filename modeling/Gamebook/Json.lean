import Gamebook.Decimal

/-!
# JSON documents

A story can be written out for other programs as a JSON document. The keys of an object keep the
order in which they are given. The pretty form indents by two spaces; texts keep every character
that JSON lets stand.
-/

namespace Gamebook

/-- A JSON document. -/
inductive JsonDocument where
  | null
  | bool (b : Bool)
  /-- A number written without a fraction. -/
  | integer (n : Int)
  /-- A number with decimal places: `mantissa` shifted right by so many of them. -/
  | decimal (mantissa : Int) (places : Nat)
  | string (s : String)
  | array (items : List JsonDocument)
  | object (fields : List (String × JsonDocument))
  deriving Repr, Inhabited

namespace JsonDocument

/-- One character of a text. -/
def escapeChar (c : Char) : List Char :=
  if c = '"' ∨ c = '\\' then ['\\', c]
  else if c = '\n' then ['\\', 'n']
  else if c = '\r' then ['\\', 'r']
  else if c = '\t' then ['\\', 't']
  else if c = '\x08' then ['\\', 'b']
  else if c = '\x0c' then ['\\', 'f']
  else if c.toNat < 0x20 then
    let digits := Nat.toDigits 16 c.toNat
    ['\\', 'u'] ++ List.replicate (4 - digits.length) '0' ++ digits
  else [c]

/-- A text between quotation marks. -/
def quote (s : String) : String :=
  String.ofList ('"' :: s.toList.flatMap escapeChar ++ ['"'])

/-- The start of a line at a depth. -/
def newline (depth : Nat) : String :=
  String.ofList ('\n' :: List.replicate (2 * depth) ' ')

mutual

/-- The pretty form of a document that stands at a depth. -/
def prettyAt (depth : Nat) : JsonDocument → String
  | null => "null"
  | bool b => if b then "true" else "false"
  | integer n => String.ofList (Decimal.ofInt n)
  | decimal mantissa places =>
    String.ofList (Decimal.ofInt mantissa) ++ "e-" ++ String.ofList (Decimal.ofNat places)
  | string s => quote s
  | array [] => "[]"
  | array items => "[" ++ ",".intercalate (prettyItems (depth + 1) items) ++ newline depth ++ "]"
  | object [] => "\x7b\x7d"
  | object fields =>
    "\x7b" ++ ",".intercalate (prettyFields (depth + 1) fields) ++ newline depth ++ "\x7d"

/-- The items of an array, each on a line of its own. -/
def prettyItems (depth : Nat) : List JsonDocument → List String
  | [] => []
  | d :: rest => (newline depth ++ prettyAt depth d) :: prettyItems depth rest

/-- The fields of an object, each on a line of its own. -/
def prettyFields (depth : Nat) : List (String × JsonDocument) → List String
  | [] => []
  | (key, d) :: rest =>
    (newline depth ++ quote key ++ ": " ++ prettyAt depth d) :: prettyFields depth rest

end

/-- The pretty form of a document. -/
def pretty (d : JsonDocument) : String :=
  prettyAt 0 d

/-! ### Reading fields -/

/-- The field of an object. -/
def field? (key : String) : JsonDocument → Option JsonDocument
  | object fields => (fields.find? fun f => f.1 == key).map (·.2)
  | _ => none

/-- The items of an array of texts. -/
def strings? : JsonDocument → Option (List String)
  | array items => items.mapM fun
    | string s => some s
    | _ => none
  | _ => none

/-- A word. -/
def word? : JsonDocument → Option Int64
  | integer n => Decimal.word? n
  | _ => none

end JsonDocument

end Gamebook
