import Gamebook.Text.Emoji
import Gamebook.Text.Ligature

/-!
# Columns

The columns of a text are those of its characters, unless some of them are drawn as one: letters
that make a ligature, and rows of characters that make a single emoji. Such a row is a picture with
a skin tone, a sign behind which a mark asks for the coloured form, or several of these between
joiners; each takes two columns.

A text is measured from its end, because what comes later decides how a character is drawn.
-/

namespace Gamebook.Text

/-- A mark that chooses between the forms of the character in front of it. -/
inductive FormMark where
  | plain
  | coloured
  /-- Quotation marks as wide as ideographs. -/
  | fullWidth
  deriving DecidableEq, Repr

/-- The mark that a character is. -/
def FormMark.ofChar? (c : Char) : Option FormMark :=
  if c = '\ufe0e' then some plain
  else if c = '\ufe0f' then some coloured
  else if c = '\ufe01' then some fullWidth
  else none

/-- The emoji behind a joiner, and what has been read of the emoji in front of it. -/
inductive JoinedEmoji where
  /-- Nothing yet. -/
  | start
  /-- The frame of a key. -/
  | keyFrame
  /-- One letter of a flag. -/
  | halfFlag
  /-- Whole flags. -/
  | flags
  /-- Whole flags, and one more letter. -/
  | flagsAndHalf
  /-- The end of the name of a region, spelled in invisible letters behind a flag. -/
  | regionLetters (count : Nat)
  /-- The same, behind some digits of a name. -/
  | regionDigits (count : Nat)
  deriving DecidableEq, Repr

/-- How a text begins, as far as it matters to the character in front of it. -/
inductive Beginning where
  | plain
  | lineFeed
  /-- The end of a ligature. -/
  | ligature (e : LigatureEnd)
  /-- The Kirat Rai vowel sign e. -/
  | vowelE
  /-- The Kirat Rai vowel sign ai, be it one character or two. -/
  | vowelAi
  /-- An emoji. -/
  | emoji
  /-- A skin tone. -/
  | skinTone
  /-- One letter of a flag. -/
  | flagLetter
  /-- Two or more letters of flags. -/
  | flagLetters
  /-- An emoji with a joiner in front of it. -/
  | joined (j : JoinedEmoji)
  deriving DecidableEq, Repr

/-- What stands behind a place in a text. -/
structure Behind where
  beginning : Beginning := .plain
  /-- The mark in front of that. -/
  mark : Option FormMark := none
  deriving DecidableEq, Repr

/-- How a text begins that has this character at its head and nothing to join with. -/
def Beginning.ofChar (c : Char) : Beginning :=
  if isSkinTone c then skinTone
  else if isRegionalIndicator c then flagLetter
  else if pictures.contains c then emoji
  else if c.toNat = 0x16D67 then vowelE
  else if c.toNat = 0x16D68 then vowelAi
  else match LigatureEnd.ofChar? c with
    | some e => ligature e
    | none => plain

namespace JoinedEmoji

/-- What becomes of a joined emoji behind a character: the columns by which the text gets wider, and
how it begins then. Whole flags take no columns of their own. -/
def extend? (j : JoinedEmoji) (c : Char) : Option (Int × Beginning) :=
  let n := c.toNat
  let isRegionLetter := 0xE0061 ≤ n ∧ n ≤ 0xE007A
  let isRegionDigit := 0xE0030 ≤ n ∧ n ≤ 0xE0039
  let isFlag := n = 0x1F3F4
  match j with
  | start =>
    if c = '\u20e3' then some (0, .joined keyFrame)
    else if isRegionalIndicator c then some (1, .joined halfFlag)
    else if isSkinTone c then some (0, .skinTone)
    else if n = 0xE007F then some (0, .joined (regionLetters 0))
    else if pictures.contains c then some (0, .emoji)
    else none
  | keyFrame => none
  | halfFlag => if isRegionalIndicator c then some (-1, .joined flags) else none
  | flags =>
    if isRegionalIndicator c then some (3, .joined flagsAndHalf)
    else if c = '\u200d' then some (0, .joined start)
    else none
  | flagsAndHalf =>
    if isRegionalIndicator c then some (-1, .joined flags)
    else if c = '\u200d' then some (0, .joined start)
    else none
  | regionLetters k =>
    if isRegionLetter ∧ k < 6 then some (0, .joined (regionLetters (k + 1)))
    else if isRegionDigit ∧ k < 5 then some (0, .joined (regionDigits 1))
    else if isFlag ∧ 3 ≤ k then some (0, .emoji)
    else none
  | regionDigits k =>
    if isRegionDigit ∧ k < 3 then some (0, .joined (regionDigits (k + 1)))
    else if isFlag ∧ k = 3 then some (0, .emoji)
    else none

end JoinedEmoji

namespace Beginning

/-- What becomes of a beginning behind a character that is drawn as one with it: the columns by
which the text gets wider, and how it begins then. -/
def extend? (b : Beginning) (c : Char) : Option (Int × Beginning) :=
  let n := c.toNat
  match b with
  | plain | lineFeed => none
  | ligature e => (e.behind? c).map fun (k, e) => (k, (e.map ligature).getD plain)
  | vowelE =>
    if n = 0x16D63 ∨ n = 0x16D69 then some (0, plain)
    else if n = 0x16D67 then some (0, vowelAi)
    else if n = 0x16D68 then some (1, vowelE)
    else none
  | vowelAi => if n = 0x16D63 then some (0, plain) else none
  | emoji => if c = '\u200d' then some (0, joined .start) else none
  | skinTone =>
    if c = '\u200d' then some (0, joined .start)
    else if skinToned.contains c then some (0, emoji)
    else none
  | flagLetter => if isRegionalIndicator c then some (1, flagLetters) else none
  | flagLetters =>
    if isRegionalIndicator c then some (1, flagLetters)
    else if c = '\u200d' then some (0, joined .start)
    else none
  | joined j => j.extend? c

/-- What is left of a beginning behind a mark that meets no fitting character. -/
def passMark : Beginning → Beginning
  | ligature e => ligature e
  | _ => plain

/-- Whether a joiner ties what comes in front to an emoji. -/
def isJoined : Beginning → Bool
  | joined .start | joined .keyFrame => true
  | _ => false

end Beginning

namespace Behind

/-- Put a mark in front. The coloured form keeps a joiner behind it. -/
def addMark (b : Behind) (m : FormMark) : Behind :=
  if m = .coloured ∧ b.mark.isNone ∧ b.beginning.isJoined then ⟨b.beginning, some m⟩
  else ⟨b.beginning.passMark, some m⟩

/-- Whether a mark finds a quotation mark that it makes wide. -/
def isWideQuote (c : Char) : Bool :=
  c = '\u2018' || c = '\u2019' || c = '\u201c' || c = '\u201d'

/-- Put a character in front that no mark says anything about. -/
def addPlain (b : Beginning) (c : Char) : Int × Behind :=
  if c.toNat ≤ 0xA0 then
    if c = '\n' then (1, ⟨.lineFeed, none⟩)
    else if c = '\r' ∧ b = .lineFeed then (0, {})
    else (1, {})
  else match b.extend? c with
    | some (k, b) => (k, ⟨b, none⟩)
    | none => (charColumns c, ⟨.ofChar c, none⟩)

/-- Put a character in front: the columns by which the text gets wider, and what stands behind the
next character. -/
def add (b : Behind) (c : Char) : Int × Behind :=
  if b.mark = some .coloured ∧ twoForms.contains c then
    (if b.beginning.isJoined then 0 else 2, ⟨.emoji, none⟩)
  else if let some m := FormMark.ofChar? c then (0, b.addMark m)
  else match b.mark with
    | none => addPlain b.beginning c
    | some .coloured => addPlain b.beginning.passMark c
    | some .plain =>
      if hasPlainForm c then (1, {}) else addPlain b.beginning.passMark c
    | some .fullWidth =>
      if isWideQuote c then (2, {}) else addPlain b.beginning.passMark c

end Behind

/-- The columns of a text, and what it is to a character in front of it. -/
def measure : List Char → Int × Behind
  | [] => (0, {})
  | c :: rest =>
    let (total, b) := measure rest
    let (k, b) := b.add c
    (total + k, b)

/-- The columns of a text. -/
def columns (cs : List Char) : Nat :=
  (measure cs).1.toNat

/-! ### Small laws -/

/-- A graphic character of ASCII takes one column in front of a text that does not join. -/
theorem add_graphic {c : Char} (low : 0x20 ≤ c.toNat) (high : c.toNat < 0x7F) :
    Behind.add {} c = (1, {}) := by
  have noMark : FormMark.ofChar? c = none := by
    have plain : c ≠ '\ufe0e' := by rintro rfl; exact absurd high (by decide)
    have coloured : c ≠ '\ufe0f' := by rintro rfl; exact absurd high (by decide)
    have fullWidth : c ≠ '\ufe01' := by rintro rfl; exact absurd high (by decide)
    simp [FormMark.ofChar?, plain, coloured, fullWidth]
  have lineFeed : c ≠ '\n' := by rintro rfl; exact absurd low (by decide)
  have narrow : c.toNat ≤ 0xA0 := by omega
  simp [Behind.add, noMark, Behind.addPlain, narrow, lineFeed]

/-- A text of graphic characters of ASCII takes as many columns as it has characters. -/
theorem columns_eq_length {cs : List Char} (h : ∀ c ∈ cs, 0x20 ≤ c.toNat ∧ c.toNat < 0x7F) :
    columns cs = cs.length := by
  have key : measure cs = ((cs.length : Int), {}) := by
    induction cs with
    | nil => rfl
    | cons c cs ih =>
      obtain ⟨low, high⟩ := h c (by simp)
      simp [measure, ih fun d hd => h d (by simp [hd]), add_graphic low high]
  simp [columns, key]

end Gamebook.Text
