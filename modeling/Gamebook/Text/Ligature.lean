import Gamebook.Text.CharWidth

/-!
# Ligatures

In some scripts two letters are drawn as one. A ligature is found from its end: its last letter
waits for the letter in front of it. In most scripts a joiner may stand between the two, and in
some it has to; marks that are ignored by default do no harm.
-/

namespace Gamebook.Text

/-- The end of a ligature, which waits for its front. `joined` tells whether a joiner stands in
front of it. -/
inductive LigatureEnd where
  /-- The Arabic letter alef, behind a lam. -/
  | alef
  /-- The Hebrew letter lamed, behind an alef. -/
  | lamed (joined : Bool)
  /-- The Khmer letters that can go below another letter, behind the sign that puts them there. -/
  | khmer
  /-- The Buginese letter ya, behind the vowel sign i. -/
  | ya (joined : Bool)
  /-- The Buginese letter ya with the vowel sign i, behind the letter a. -/
  | vowelledYa
  /-- A Tifinagh consonant, behind another one. -/
  | consonant (joined : Bool)
  /-- A Tifinagh consonant with the Tifinagh joiner, behind another consonant. -/
  | tiedConsonant
  /-- The second of two Lisu tone letters. -/
  | tone
  /-- The Old Turkic letter i, behind the letter ic. -/
  | turkicI (joined : Bool)
  deriving DecidableEq, Repr

namespace LigatureEnd

/-- The Arabic letters that are forms of alef. -/
def alefs : CharSet := ⟨#[
  (0x622, 0x623), (0x625, 0x625), (0x627, 0x627), (0x671, 0x673), (0x675, 0x675), (0x773, 0x774),
  (0x870, 0x882)]⟩

/-- The Arabic letters that are forms of lam. -/
def lams : CharSet := ⟨#[
  (0x644, 0x644), (0x6B5, 0x6B8), (0x76A, 0x76A), (0x8A6, 0x8A6), (0x8C7, 0x8C7)]⟩

/-- The Khmer letters that can go below another letter. -/
def khmerLetters : CharSet := ⟨#[
  (0x1780, 0x1782), (0x1784, 0x1787), (0x1789, 0x178C), (0x178E, 0x1793), (0x1795, 0x1798),
  (0x179B, 0x179D), (0x17A0, 0x17A0), (0x17A2, 0x17A2), (0x17A7, 0x17A7), (0x17AB, 0x17AC),
  (0x17AF, 0x17AF)]⟩

/-- The Tifinagh consonants. -/
def consonants : CharSet := ⟨#[(0x2D31, 0x2D65), (0x2D6F, 0x2D6F)]⟩

/-- The marks that are ignored by default. -/
def ignoredMarks : CharSet := ⟨#[
  (0x34F, 0x34F), (0x17B4, 0x17B5), (0x180B, 0x180D), (0x180F, 0x180F), (0xFE00, 0xFE0F),
  (0xE0100, 0xE01EF)]⟩

/-- The characters without a column between which Arabic letters do not join. -/
def separators : CharSet := ⟨#[
  (0x605, 0x605), (0x890, 0x891), (0x8E2, 0x8E2), (0x9BE, 0x9BE), (0x9D7, 0x9D7), (0xB3E, 0xB3E),
  (0xB57, 0xB57), (0xBBE, 0xBBE), (0xBD7, 0xBD7), (0xCC0, 0xCC0), (0xCC2, 0xCC2), (0xCC7, 0xCC8),
  (0xCCA, 0xCCB), (0xCD5, 0xCD6), (0xD3E, 0xD3E), (0xD4E, 0xD4E), (0xD57, 0xD57), (0xDCF, 0xDCF),
  (0xDDF, 0xDDF), (0x1160, 0x11FF), (0x1715, 0x1715), (0x1734, 0x1734), (0x180E, 0x180E),
  (0x1B35, 0x1B35), (0x1B3B, 0x1B3B), (0x1B3D, 0x1B3D), (0x1B43, 0x1B44), (0x1BAA, 0x1BAA),
  (0x1BF2, 0x1BF3), (0x200C, 0x200D), (0x2065, 0x2069), (0x302E, 0x302F), (0x3164, 0x3164),
  (0xA8FA, 0xA8FA), (0xA953, 0xA953), (0xA9C0, 0xA9C0), (0xD7B0, 0xD7C6), (0xD7CB, 0xD7FB),
  (0xFF9E, 0xFFA0), (0xFFF0, 0xFFF8), (0x111C0, 0x111C0), (0x111C2, 0x111C3), (0x11235, 0x11235),
  (0x1133E, 0x1133E), (0x1134D, 0x1134D), (0x11357, 0x11357), (0x113B8, 0x113B8),
  (0x113C2, 0x113C2), (0x113C5, 0x113C5), (0x113C7, 0x113C9), (0x113CF, 0x113CF),
  (0x113D1, 0x113D1), (0x114B0, 0x114B0), (0x114BD, 0x114BD), (0x115AF, 0x115AF),
  (0x116B6, 0x116B6), (0x11930, 0x11930), (0x1193D, 0x1193D), (0x1193F, 0x1193F),
  (0x11941, 0x11941), (0x11A84, 0x11A89), (0x11D46, 0x11D46), (0x11F02, 0x11F02),
  (0x11F41, 0x11F41), (0x16FF0, 0x16FF1), (0x1D165, 0x1D166), (0x1D16D, 0x1D172),
  (0xE0000, 0xE0000), (0xE0002, 0xE001F), (0xE0080, 0xE00FF), (0xE01F0, 0xE0FFF)]⟩

/-- The ligature that a character may end. -/
def ofChar? (c : Char) : Option LigatureEnd :=
  if c = '\u05dc' then some (lamed false)
  else if alefs.contains c then some alef
  else if khmerLetters.contains c then some khmer
  else if c = '\u1a10' then some (ya false)
  else if consonants.contains c then some (consonant false)
  else if c = '\ua4fc' ∨ c = '\ua4fd' then some tone
  else if c.toNat = 0x10C03 then some (turkicI false)
  else none

/-- The end of a ligature with a joiner in front of it. -/
def join : LigatureEnd → LigatureEnd
  | lamed _ => lamed true
  | ya _ => ya true
  | consonant _ => consonant true
  | turkicI _ => turkicI true
  | e => e

/-- Whether a character may stand between the end of a ligature and its front. -/
def letsPass (e : LigatureEnd) (c : Char) : Bool :=
  match e with
  | alef => charColumns c = 0 && !separators.contains c
  | _ => c = '\u200d' || ignoredMarks.contains c

/-- What becomes of the end of a ligature behind a character: the columns by which the text gets
wider, and what now waits for a front. Nothing if the two do not fit together. -/
def extend? (e : LigatureEnd) (c : Char) : Option (Int × Option LigatureEnd) :=
  match e with
  | alef => if lams.contains c then some (0, none) else none
  | lamed true => if c = '\u05d0' then some (0, none) else none
  | khmer => if c = '\u17d2' then some (-1, none) else none
  | ya true => if c = '\u1a17' then some (0, some vowelledYa) else none
  | vowelledYa => if c = '\u1a15' then some (0, none) else none
  | consonant joined =>
    if c = '\u2d7f' then some (1, some tiedConsonant)
    else if joined && consonants.contains c then some (0, none)
    else none
  | tiedConsonant => if consonants.contains c then some (-1, none) else none
  | tone => if 0xA4F8 ≤ c.toNat ∧ c.toNat ≤ 0xA4FB then some (0, none) else none
  | turkicI true => if c.toNat = 0x10C32 then some (0, none) else none
  | _ => none

/-- What becomes of the end of a ligature behind any character. -/
def behind? (e : LigatureEnd) (c : Char) : Option (Int × Option LigatureEnd) :=
  if e.letsPass c then some (0, some (if c = '\u200d' then e.join else e)) else e.extend? c

end LigatureEnd

end Gamebook.Text
