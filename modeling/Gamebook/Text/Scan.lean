import Gamebook.Text.Space

/-!
# Scanning past escapes

Story text is searched for markers: a single character, a longer mark such as `//`, or a pair such
as `[` and `]` whose occurrences nest. A backslash hides the character behind it from every search.

The same search runs over two kinds of *units*: the characters of a text, where the rest behind a
marker is what one wants, and the bytes of its UTF-8 form, where one wants the position. The one
thing in which they differ is how many units an escaped character takes. In bytes a marker
character stands for the byte with its low eight bits, so a marker outside ASCII finds bytes and
not characters.
-/

namespace Gamebook.Text

/-- Units of text. -/
class Units (α : Type) where
  /-- The unit that a marker character stands for. -/
  ofChar : Char → α
  /-- The units of a text. -/
  encode : List Char → List α
  /-- How many units the character that begins with this one has; 0 for a unit that begins none. -/
  width : α → Nat

instance : Units Char where
  ofChar c := c
  encode cs := cs
  width _ := 1

/-- The bytes of a text in UTF-8. -/
def utf8 (cs : List Char) : List UInt8 :=
  cs.flatMap String.utf8EncodeChar

/-- The length of the UTF-8 sequence that starts with a byte. -/
def sequenceLength (b : UInt8) : Nat :=
  if b < 0x80 then 1 else if b < 0xC0 then 0 else if b < 0xE0 then 2 else if b < 0xF0 then 3 else 4

instance : Units UInt8 where
  ofChar c := c.toNat.toUInt8
  encode := utf8
  width := sequenceLength

variable {α : Type} [Units α]

/-! ### Escapes -/

/-- The units of the escape at the head of a text: the escaping one and the character behind it. -/
def escapeLength : List α → Nat
  | _ :: next :: _ => 1 + Units.width next
  | _ => 1

theorem escapeLength_pos (us : List α) : 0 < escapeLength us := by
  unfold escapeLength
  split <;> omega

variable [BEq α]

/-- Whether a unit hides the character behind it. -/
def isEscape (u : α) : Bool :=
  u == Units.ofChar '\\'

/-! ### Searching -/

/-- The units in front of the first place, outside of escapes, at which `hit` holds. -/
def find (hit : List α → Bool) : List α → Option Nat
  | [] => none
  | u :: rest =>
    if isEscape u then
      let n := escapeLength (u :: rest)
      (find hit ((u :: rest).drop n)).map (· + n)
    else if hit (u :: rest) then some 0
    else (find hit rest).map (· + 1)
termination_by us => us.length
decreasing_by
  · have := escapeLength_pos (u :: rest)
    simp only [List.length_drop, List.length_cons]
    omega
  · simp

/-- The units up to and with the closing one that balances `depth + 1` opening ones. -/
def findClose (opening closing : α) (depth : Nat) : List α → Option Nat
  | [] => none
  | u :: rest =>
    if isEscape u then
      let n := escapeLength (u :: rest)
      (findClose opening closing depth ((u :: rest).drop n)).map (· + n)
    else if u == closing then
      match depth with
      | 0 => some 1
      | depth + 1 => (findClose opening closing depth rest).map (· + 1)
    else if u == opening then (findClose opening closing (depth + 1) rest).map (· + 1)
    else (findClose opening closing depth rest).map (· + 1)
termination_by us => us.length
decreasing_by
  · have := escapeLength_pos (u :: rest)
    simp only [List.length_drop, List.length_cons]
    omega
  all_goals simp

/-- Whether a text begins with one of some ASCII characters. -/
def startsWithOneOf (set : List Char) : List α → Bool
  | [] => false
  | u :: _ => set.any fun c => c.toNat < 0x80 && u == Units.ofChar c

/-! ### Markers -/

/-- What a search looks for. -/
inductive Marker where
  /-- One character. -/
  | single (c : Char)
  /-- Some characters in a row. -/
  | wide (text : List Char)
  /-- An opening character, and the closing one that balances it. -/
  | paired (opening closing : Char)
  deriving DecidableEq, Repr

namespace Marker

/-- A quoted text. -/
def textBlock : Marker := .paired '"' '"'

/-- A noun, a verb or an expression. -/
def bracket : Marker := .paired '[' ']'

/-- A scope. -/
def scope : Marker := .paired '{' '}'

/-- The arguments of a call. -/
def call : Marker := .paired '(' ')'

/-- A reference inside text. -/
def keyword : Marker := .paired '<' '>'

/-- What starts a remark that reaches to the end of its line. -/
def comment : Marker := .wide ['/', '/']

/-- Whether a text begins with the marker, or with the character that opens it. -/
def startsAt : Marker → List α → Bool
  | single c, us => us.head?.any (· == Units.ofChar c)
  | wide text, us => (Units.encode text).isPrefixOf us
  | paired opening _, us => us.head?.any (· == Units.ofChar opening)

/-- The units of the marker with which a text begins: for a pair, up to and with its closing
character. -/
def lengthAt? : Marker → List α → Option Nat
  | single c, us => if us.head?.any (· == Units.ofChar c) then some 1 else none
  | wide text, us =>
    -- a text stands only where a character begins, or at the very end
    if us.head?.all (0 < Units.width ·) && (Units.encode text).isPrefixOf us then
      some (Units.encode text : List α).length
    else none
  | paired opening closing, us => match us with
    | [] => none
    | u :: rest =>
      if u == Units.ofChar opening then
        (findClose (Units.ofChar opening) (Units.ofChar closing) 0 rest).map (· + 1)
      else none

end Marker

/-! ### Positions in bytes

Positions beyond the end of the text hold nothing. -/

/-- The bytes of an escape at a position. -/
def escapeLengthAt (text : String) (at' : Nat) : Nat :=
  escapeLength ((utf8 text.toList).drop at')

/-- The position of the first marker that is not escaped. -/
def Marker.start? (m : Marker) (text : String) (start : Nat) : Option Nat :=
  (find m.startsAt ((utf8 text.toList).drop start)).map (· + start)

/-- The position just behind a marker that stands at a given one. -/
def Marker.stop? (m : Marker) (text : String) (start : Nat) : Option Nat :=
  let bytes := utf8 text.toList
  if bytes.length < start then none else (m.lengthAt? (bytes.drop start)).map (· + start)

/-- Where the first marker starts and stops; nothing if that one is never closed. -/
def Marker.span? (m : Marker) (text : String) (start : Nat) : Option (Nat × Nat) :=
  (m.start? text start).bind fun first => (m.stop? text first).map fun stop => (first, stop)

/-- The position of the first character of a set that is not escaped. -/
def firstOf? (set : List Char) (text : String) (start : Nat) : Option Nat :=
  (find (startsWithOneOf set) ((utf8 text.toList).drop start)).map (· + start)

/-! ### Cutting texts -/

/-- The text in front of the first place where `hit` holds, and the text from there. -/
def cut (hit : List Char → Bool) (cs : List Char) : Option (List Char × List Char) :=
  (find hit cs).map cs.splitAt

/-- A text that begins with a pair, as the part inside and the part behind the pair. -/
def Marker.inside? (m : Marker) (cs : List Char) : Option (List Char × List Char) :=
  (m.lengthAt? cs).map fun n => ((cs.take (n - 1)).drop 1, cs.drop n)

/-- A line without its remark. -/
def stripComment (line : List Char) : List Char :=
  match cut Marker.comment.startsAt line with
  | some (before, _) => before
  | none => line

/-- A text cut at separators: the first piece, then each separator with the piece behind it. -/
structure Pieces where
  head : List Char
  tail : List (Char × List Char)
  deriving DecidableEq, Repr

/-- Put characters in front of the first piece. -/
def Pieces.prepend (cs : List Char) (p : Pieces) : Pieces :=
  { p with head := cs ++ p.head }

/-- Cut a text at the separators that are neither escaped nor inside of parentheses, `depth` of
which are open in front of it. A closing parenthesis too many is passed over. -/
def splitTopLevel (isSeparator : Char → Bool) (depth : Nat) : List Char → Pieces
  | [] => ⟨[], []⟩
  | ['\\'] => ⟨['\\'], []⟩
  | '\\' :: c :: rest => (splitTopLevel isSeparator depth rest).prepend ['\\', c]
  | c :: rest =>
    if c = '(' then (splitTopLevel isSeparator (depth + 1) rest).prepend [c]
    else if c = ')' then (splitTopLevel isSeparator (depth - 1) rest).prepend [c]
    else if depth = 0 ∧ isSeparator c then
      let later := splitTopLevel isSeparator 0 rest
      ⟨[], (c, later.head) :: later.tail⟩
    else (splitTopLevel isSeparator depth rest).prepend [c]

end Gamebook.Text
