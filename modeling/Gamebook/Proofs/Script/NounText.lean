import Gamebook.Proofs.Script.Gaps
import Gamebook.Proofs.Script.Words
import Gamebook.Proofs.Text.Cleaning
import Gamebook.Proofs.Text.Joining
import Gamebook.Story

/-!
# Names as they are written

A name is written as a row of *strokes*, ordinary characters and escaped ones, with white space
between them. It is read in two ways. In the header of a definition it is trimmed, and its escapes
are resolved: `NounText.noun`. In a script its white space is cleaned first, which leaves it in one
form wherever it stands (`NounText.cleanFrom_text`); then it is cut into words, and these are joined
by single spaces: `NounText.reference`.

The two agree exactly if the name is *even* (`NounText.reference_eq_noun_iff`): its white space is
as cleaning leaves it, it has no line feed, and it does not end in escaped white space.
-/

namespace Gamebook.Script

open Text

/-! ### Strokes -/

/-- A character of a name as it is written: an ordinary one, or any other one but a line break
behind a backslash. -/
inductive Stroke where
  | plain (c : Char) (shown : isPlain c = true)
  | escape (c : Char) (unbroken : c ≠ '\r' ∧ c ≠ '\n')
  deriving DecidableEq

namespace Stroke

/-- What is written. -/
def text : Stroke → List Char
  | plain c _ => [c]
  | escape c _ => ['\\', c]

/-- What it stands for. -/
def value : Stroke → Char
  | plain c _ => c
  | escape c _ => escaped c

/-- Whether it is the escape of a line feed. -/
def isFeed : Stroke → Bool
  | plain _ _ => false
  | escape c _ => c == 'n'

/-- What cleaning makes of it. -/
def cleaned (s : Stroke) : List Char :=
  if s.isFeed then ['\n'] else s.text

/-- The last character that cleaning writes for it. -/
def last (s : Stroke) : Char :=
  if s.isFeed then '\n' else match s with
    | plain c _ => c
    | escape c _ => c

/-- Whether it stands for a character with a meaning in scripts, which must be behind a backslash
then. -/
def isMark (s : Stroke) : Bool :=
  isStructural s.last

/-- Whether it is white space behind a backslash. -/
def isHiddenSpace : Stroke → Bool
  | plain _ _ => false
  | escape c _ => isSpace c

/-- What stays of the white space behind it. -/
def gapBehind (s : Stroke) (gap : List Char) : List Char :=
  if gap = [] ∨ s.isMark then [] else [' ']

end Stroke

/-- A stroke with the white space in front of it, if any. -/
structure Spaced where
  gap : List Char
  stroke : Stroke
  blank : ∀ c ∈ gap, isSpace c = true
  deriving DecidableEq

/-- A name as it is written, with strokes at both ends. -/
structure NounText where
  first : Stroke
  rest : List Spaced
  deriving DecidableEq

/-- Strokes with the white space in front of them, as they are written. -/
def spacedText (rest : List Spaced) : List Char :=
  rest.flatMap fun g => g.gap ++ g.stroke.text

/-- What cleaning makes of strokes with white space in front of them, behind another one. -/
def spacedClean (s : Stroke) : List Spaced → List Char
  | [] => []
  | g :: rest => s.gapBehind g.gap ++ (g.stroke.cleaned ++ spacedClean g.stroke rest)

/-- The last of some strokes. -/
def lastStroke (s : Stroke) : List Spaced → Stroke
  | [] => s
  | g :: rest => lastStroke g.stroke rest

namespace NounText

/-- The name as it is written. -/
def text (w : NounText) : List Char :=
  w.first.text ++ spacedText w.rest

/-- The name as cleaning leaves it. -/
def cleaned (w : NounText) : List Char :=
  w.first.cleaned ++ spacedClean w.first w.rest

/-- The last stroke. -/
def last (w : NounText) : Stroke :=
  lastStroke w.first w.rest

/-- The noun that the name stands for in the header of a definition. -/
def noun (w : NounText) : String :=
  Story.headerName w.text

/-- The words of a text that is read as a row of tokens. -/
def words (cs : List Char) : List String :=
  (Tokens.values (tokensOf (lexemes cs))).filterMap fun
    | .word text => some text
    | _ => none

/-- The noun that the name stands for in a script. -/
def reference (w : NounText) : String :=
  " ".intercalate (words w.cleaned)

end NounText

/-! ### Cleaning -/

namespace Stroke

theorem ne_of_isPlain {c d : Char} (h : isPlain c = true) (hd : isPlain d = false) : c ≠ d := by
  rintro rfl
  rw [h] at hd
  cases hd

/-- An ordinary character has no meaning in scripts. -/
theorem isStructural_of_isPlain {c : Char} (h : isPlain c = true) : isStructural c = false := by
  have hreserved : structural ⊆ reserved := by decide
  rw [isStructural, Bool.eq_false_iff, ne_eq, List.contains_iff_mem]
  exact fun hmem => (isPlain_cases h).2.2.2.1 (hreserved hmem)

/-- Strokes show from their first character on. -/
theorem text_eq_cons (s : Stroke) : ∃ c cs, s.text = c :: cs ∧ isSpace c = false ∧
    isStructural c = false := by
  cases s with
  | plain c h => exact ⟨c, [], rfl, (isPlain_cases h).2.2.2.2, isStructural_of_isPlain h⟩
  | escape c h => exact ⟨'\\', [c], rfl, rfl, rfl⟩

/-- A stroke is cleaned by itself. -/
theorem cleanFrom_text (s : Stroke) (last : Option Char) (behind : List Char) :
    cleanFrom .script last (s.text ++ behind) =
      s.cleaned ++ cleanFrom .script (some s.last) behind := by
  cases s with
  | plain c h =>
    have hcs := isPlain_cases h
    have hstep : Place.script.step c = .script := if_neg (ne_of_isPlain h (by decide))
    refine (cleanFrom_char hcs.2.1 hcs.2.2.2.2 (by simp)).trans ?_
    rw [hstep]
    rfl
  | escape c h =>
    by_cases hn : c = 'n'
    · subst hn
      exact cleanFrom_feed _ _ _
    · have hfeed : (escape c h).isFeed = false := beq_false_of_ne hn
      rw [cleaned, hfeed, Stroke.last, hfeed]
      exact cleanFrom_hidden hn _ _ _

/-- White space between strokes is cleaned by what stands in front of it. -/
theorem cleanFrom_gap (s t : Stroke) {gap : List Char} (hgap : ∀ c ∈ gap, isSpace c = true)
    (behind : List Char) : cleanFrom .script (some s.last) (gap ++ (t.text ++ behind)) =
      s.gapBehind gap ++ (t.cleaned ++ cleanFrom .script (some t.last) behind) := by
  by_cases hne : gap = []
  · rw [hne, gapBehind, if_pos (.inl rfl)]
    exact t.cleanFrom_text _ _
  · obtain ⟨d, ds, htext, hspace, hstructural⟩ := t.text_eq_cons
    have hhead : ∀ c ∈ (t.text ++ behind).head?, isSpace c = false := by
      rw [htext]
      rintro c ⟨⟩
      exact hspace
    have hkept : cleanRun .script (some s.last) gap (t.text ++ behind) = s.gapBehind gap := by
      rw [cleanRun, if_neg (by simp), htext, gapBehind, isMark]
      simp [hstructural, hne]
    rw [cleanFrom_run hne hgap hhead, hkept, t.cleanFrom_text]

end Stroke

/-- Behind a stroke, the strokes that follow are cleaned in the same way wherever they stand. -/
theorem cleanFrom_spacedText (s : Stroke) (rest : List Spaced) (behind : List Char) :
    cleanFrom .script (some s.last) (spacedText rest ++ behind) =
      spacedClean s rest ++ cleanFrom .script (some (lastStroke s rest).last) behind := by
  induction rest generalizing s with
  | nil => rfl
  | cons g rest ih =>
    have htext : spacedText (g :: rest) ++ behind =
        g.gap ++ (g.stroke.text ++ (spacedText rest ++ behind)) := by
      simp [spacedText]
    rw [htext, s.cleanFrom_gap g.stroke g.blank, ih, spacedClean, lastStroke, List.append_assoc,
      List.append_assoc]

/-- In every script cleaning leaves a name in the same form. -/
theorem NounText.cleanFrom_text (w : NounText) (last : Option Char) (behind : List Char) :
    cleanFrom .script last (w.text ++ behind) =
      w.cleaned ++ cleanFrom .script (some w.last.last) behind := by
  rw [text, List.append_assoc, w.first.cleanFrom_text, cleanFrom_spacedText, cleaned,
    List.append_assoc]
  rfl

/-! ### Headers -/

/-- A text that shows is trimmed at its end only as far as its last visible part. -/
theorem trimEnd_append {ds : List Char} (h : isBlank ds = false) (cs : List Char) :
    trimEnd (cs ++ ds) = cs ++ trimEnd ds := by
  have hne : ds.reverse.dropWhile isSpace ≠ [] := fun hnil => by
    have hall := List.dropWhile_eq_nil_iff.mp hnil
    rw [isBlank, List.all_eq_true.mpr fun c hc => hall c (List.mem_reverse.mpr hc)] at h
    cases h
  obtain ⟨d, rest, hrest⟩ := List.exists_cons_of_ne_nil hne
  rw [trimEnd, trimEnd, List.reverse_append, List.dropWhile_append, hrest]
  simp

/-- What a header makes of some strokes. White space at the end is trimmed, even behind its
backslash, and the backslash stays. -/
def headerValues (s : Stroke) : List Spaced → List Char
  | [] => if s.isHiddenSpace then ['\\'] else [s.value]
  | g :: rest => s.value :: (g.gap ++ headerValues g.stroke rest)

namespace Stroke

theorem isBlank_text_append (s : Stroke) (behind : List Char) :
    isBlank (s.text ++ behind) = false := by
  obtain ⟨c, cs, htext, hspace, -⟩ := s.text_eq_cons
  rw [htext, isBlank]
  simp [hspace]

theorem unescape_text (s : Stroke) (behind : List Char) :
    unescape (s.text ++ behind) = s.value :: unescape behind := by
  cases s with
  | plain c h => exact unescape_char (isPlain_cases h).2.1 behind
  | escape c h => rfl

end Stroke

theorem unescape_trimEnd_text (s : Stroke) (rest : List Spaced) :
    unescape (trimEnd (s.text ++ spacedText rest)) = headerValues s rest := by
  induction rest generalizing s with
  | nil =>
    rw [spacedText, List.flatMap_nil, List.append_nil, headerValues]
    cases s with
    | plain c h =>
      have hspace := (isPlain_cases h).2.2.2.2
      have htrim : trimEnd (Stroke.plain c h).text = [c] := by
        simp [Stroke.text, trimEnd, hspace]
      rw [htrim, unescape_char (isPlain_cases h).2.1]
      rfl
    | escape c h =>
      by_cases hspace : isSpace c = true
      · have htrim : trimEnd (Stroke.escape c h).text = ['\\'] := by
          have hescape : isSpace '\\' = false := rfl
          simp [Stroke.text, trimEnd, hspace, hescape]
        rw [htrim, Stroke.isHiddenSpace, if_pos hspace]
        rfl
      · have htrim : trimEnd (Stroke.escape c h).text = ['\\', c] := by
          simp [Stroke.text, trimEnd, hspace]
        rw [htrim, Stroke.isHiddenSpace, if_neg hspace]
        rfl
  | cons g rest ih =>
    have htext : spacedText (g :: rest) = g.gap ++ (g.stroke.text ++ spacedText rest) := by
      simp [spacedText]
    have hshown := g.stroke.isBlank_text_append (spacedText rest)
    rw [htext, ← List.append_assoc, trimEnd_append hshown, List.append_assoc, s.unescape_text,
      unescape_blank g.blank, ih, headerValues]

/-- The noun of a header. -/
theorem NounText.toList_noun (w : NounText) : w.noun.toList = headerValues w.first w.rest := by
  obtain ⟨c, cs, htext, hspace, -⟩ := w.first.text_eq_cons
  have hstart : trimStart w.text = w.text := by
    rw [text, htext, List.cons_append, trimStart]
    exact List.dropWhile_cons_of_neg (by simp [hspace])
  rw [noun, Story.headerName, String.toList_ofList, trim, hstart]
  exact unescape_trimEnd_text _ _

/-! ### References -/

namespace Stroke

/-- A stroke belongs to a word, unless it is a line feed. -/
theorem wordy_cleaned (s : Stroke) {behind : List Char} (h : Wordy behind) :
    Wordy (s.cleaned ++ behind) := by
  rw [cleaned]
  split
  · exact .gap rfl h
  · cases s with
    | plain c hc => exact .char (isPlain_cases hc).1 h
    | escape c hc => exact .escape hc.1 hc.2 h

theorem wordy_gapBehind (s : Stroke) (gap : List Char) {behind : List Char} (h : Wordy behind) :
    Wordy (s.gapBehind gap ++ behind) := by
  rw [gapBehind]
  split
  · exact h
  · exact .gap rfl h

/-- A stroke that is no line feed is read as the character that it stands for. -/
theorem gapPieces_cleaned {s : Stroke} (h : s.isFeed = false) (behind : List Char) :
    gapPieces (s.cleaned ++ behind) = ontoFirst s.value (gapPieces behind) := by
  rw [cleaned, h]
  cases s with
  | plain c hc =>
    obtain ⟨-, hescape, hgap, -, -⟩ := isPlain_cases hc
    refine (gapPieces_char hescape behind).trans ?_
    rw [hgap]
    rfl
  | escape c hc => rfl

end Stroke

theorem wordy_spacedClean (s : Stroke) (rest : List Spaced) : Wordy (spacedClean s rest) := by
  induction rest generalizing s with
  | nil => exact .nil
  | cons g rest ih => exact s.wordy_gapBehind g.gap (g.stroke.wordy_cleaned (ih g.stroke))

theorem NounText.wordy_cleaned (w : NounText) : Wordy w.cleaned :=
  w.first.wordy_cleaned (wordy_spacedClean w.first w.rest)

/-- The words of a text of words and gaps. -/
theorem words_eq_gapWords {cs : List Char} (h : Wordy cs) : NounText.words cs = gapWords cs := by
  have hread : lexed cs = ((gapWords cs).map .word).map .token := by
    have hnone : lexed [] = [] := by rw [lexed, lexemes, lexemesFrom, List.map_nil]
    have happend := h.lexed_append (show wordLength [] = 0 from rfl)
    rw [List.append_nil, hnone, List.append_nil] at happend
    rw [happend, List.map_map]
    rfl
  rw [NounText.words, (values_tokensOf hread).1, List.filterMap_map]
  exact List.filterMap_some

/-- What a script makes of some strokes, if none is a line feed. -/
def referenceValues (s : Stroke) : List Spaced → List Char
  | [] => [s.value]
  | g :: rest => s.value :: (s.gapBehind g.gap ++ referenceValues g.stroke rest)

/-- Whether no stroke of a name is a line feed. -/
def NounText.Unfed (w : NounText) : Prop :=
  w.first.isFeed = false ∧ ∀ g ∈ w.rest, g.stroke.isFeed = false

/-- Without line feeds there is a word between any two gaps, and single spaces join the words
again. -/
theorem gapPieces_strokes {s : Stroke} {rest : List Spaced} (hs : s.isFeed = false)
    (hrest : ∀ g ∈ rest, g.stroke.isFeed = false) :
    ∃ piece pieces, gapPieces (s.cleaned ++ spacedClean s rest) = piece :: pieces ∧
      (∀ p ∈ piece :: pieces, p ≠ []) ∧
      [' '].intercalate (piece :: pieces) = referenceValues s rest := by
  induction rest generalizing s with
  | nil => exact ⟨[s.value], [], Stroke.gapPieces_cleaned hs [], by simp, rfl⟩
  | cons g rest ih =>
    obtain ⟨piece, pieces, hpieces, hne, hjoined⟩ :=
      ih (hrest g List.mem_cons_self) fun g' hg' => hrest g' (List.mem_cons_of_mem g hg')
    rw [spacedClean, Stroke.gapPieces_cleaned hs, referenceValues, ← hjoined, Stroke.gapBehind]
    split
    · rw [List.nil_append, hpieces]
      refine ⟨s.value :: piece, pieces, rfl, ?_, ?_⟩
      · simpa using fun p hp => hne p (List.mem_cons_of_mem piece hp)
      · cases pieces <;> simp [List.intercalate_cons_cons]
    · have hgap : isGap ' ' = true := rfl
      rw [List.singleton_append, gapPieces_char (by decide), if_pos hgap, hpieces]
      refine ⟨[s.value], piece :: pieces, rfl, ?_, ?_⟩
      · simpa using hne
      · rw [List.intercalate_cons_cons]
        rfl

namespace NounText

/-- The noun that a name stands for in a script, if it has no line feed. -/
theorem toList_reference {w : NounText} (h : w.Unfed) :
    w.reference.toList = referenceValues w.first w.rest := by
  obtain ⟨piece, pieces, hpieces, hne, hjoined⟩ := gapPieces_strokes h.1 h.2
  have hfilter : (piece :: pieces).filter (· ≠ []) = piece :: pieces :=
    List.filter_eq_self.mpr fun p hp => decide_eq_true (hne p hp)
  have hwords : words w.cleaned = (piece :: pieces).map String.ofList := by
    rw [words_eq_gapWords w.wordy_cleaned, gapWords, cleaned, hpieces, hfilter]
  have hlists : ((piece :: pieces).map String.ofList).map String.toList = piece :: pieces := by
    rw [List.map_map]
    exact List.map_id'' (fun p => String.toList_ofList) _
  rw [reference, hwords, String.toList_intercalate, hlists]
  exact hjoined

/-- No reference holds a line feed. -/
theorem feed_not_mem_reference (w : NounText) : '\n' ∉ w.reference.toList := by
  have hclean : clean w.text = w.cleaned := by
    have htext := w.cleanFrom_text none []
    rwa [List.append_nil, cleanFrom, List.append_nil] at htext
  have hfeedless : Feedless w.cleaned := hclean ▸ feedless_clean w.text
  have hwords : ∀ word ∈ words w.cleaned, Parser.UnbrokenAtom word := by
    intro word hword
    obtain ⟨t, ht, hvalue⟩ := List.mem_filterMap.mp hword
    obtain ⟨l, hl, rfl⟩ := List.mem_map.mp ht
    split at hvalue
    next _ text htext =>
      cases hvalue
      exact unbroken_tokensOf hfeedless l hl _ htext
    next => cases hvalue
  exact fun hmem => (Parser.unbroken_intercalate hwords '\n' hmem).1 rfl

end NounText

/-! ### Even names -/

/-- Whether the white space between strokes is as cleaning leaves it, and none is hidden at the
end. -/
def Level (s : Stroke) : List Spaced → Prop
  | [] => s.isHiddenSpace = false
  | g :: rest => g.gap = s.gapBehind g.gap ∧ Level g.stroke rest

/-- Whether a name is written in such a way that it is read alike in headers and in scripts: it has
no line feed; between two strokes there is nothing or one space, and no space behind an escaped
character with a meaning in scripts; and it does not end in escaped white space. -/
def NounText.Even (w : NounText) : Prop :=
  w.Unfed ∧ Level w.first w.rest

instance decidableLevel (s : Stroke) : ∀ rest, Decidable (Level s rest)
  | [] => inferInstanceAs (Decidable (s.isHiddenSpace = false))
  | g :: rest =>
    have := decidableLevel g.stroke rest
    inferInstanceAs (Decidable (g.gap = s.gapBehind g.gap ∧ Level g.stroke rest))

instance (w : NounText) : Decidable w.Even :=
  inferInstanceAs (Decidable ((w.first.isFeed = false ∧ ∀ g ∈ w.rest, g.stroke.isFeed = false) ∧
    Level w.first w.rest))

/-- A header keeps every line feed. -/
theorem feed_mem_headerValues {s : Stroke} {rest : List Spaced}
    (h : s.isFeed = true ∨ ∃ g ∈ rest, g.stroke.isFeed = true) : '\n' ∈ headerValues s rest := by
  have hfeed {s : Stroke} (h : s.isFeed = true) : s.value = '\n' ∧ s.isHiddenSpace = false := by
    cases s with
    | plain => cases h
    | escape c hc =>
      cases eq_of_beq (show (c == 'n') = true from h)
      exact ⟨rfl, rfl⟩
  induction rest generalizing s with
  | nil =>
    obtain ⟨hvalue, hshown⟩ := hfeed (h.resolve_right (by simp))
    rw [headerValues, hshown, hvalue]
    exact List.mem_cons_self
  | cons g rest ih =>
    rw [headerValues]
    rcases h with h | ⟨g', hmem, h⟩
    · rw [(hfeed h).1]
      exact List.mem_cons_self
    · refine List.mem_cons_of_mem _ (List.mem_append_right _ (ih ?_))
      rcases List.mem_cons.mp hmem with rfl | hmem
      · exact .inl h
      · exact .inr ⟨g', hmem, h⟩

theorem Stroke.length_gapBehind_le (s : Stroke) (gap : List Char) :
    (s.gapBehind gap).length ≤ gap.length := by
  rw [gapBehind]
  split
  · exact Nat.zero_le _
  next h => exact List.length_pos_iff.mpr fun hnil => h (.inl hnil)

/-- A script leaves out white space and adds none. -/
theorem length_referenceValues_le (s : Stroke) (rest : List Spaced) :
    (referenceValues s rest).length ≤ (headerValues s rest).length := by
  induction rest generalizing s with
  | nil =>
    rw [referenceValues, headerValues]
    split <;> rfl
  | cons g rest ih =>
    have hgap := s.length_gapBehind_le g.gap
    have hrest := ih g.stroke
    simp only [referenceValues, headerValues, List.length_cons, List.length_append]
    omega

/-- Hidden white space never stands for the backslash that a header leaves of it. -/
theorem Stroke.value_ne_of_isHiddenSpace {s : Stroke} (h : s.isHiddenSpace = true) :
    s.value ≠ '\\' := by
  cases s with
  | plain => cases h
  | escape c hc =>
    have hspace : isSpace c = true := h
    have hn : c ≠ 'n' := by
      rintro rfl
      cases hspace
    rw [value, escaped, if_neg hn]
    rintro rfl
    cases hspace

/-- Without line feeds the two readings agree where the strokes are level. -/
theorem referenceValues_eq_iff (s : Stroke) (rest : List Spaced) :
    referenceValues s rest = headerValues s rest ↔ Level s rest := by
  induction rest generalizing s with
  | nil =>
    rw [referenceValues, headerValues, Level]
    split
    next h => simp [h, Stroke.value_ne_of_isHiddenSpace h]
    next h => simpa using h
  | cons g rest ih =>
    rw [referenceValues, headerValues, Level, ← ih]
    refine ⟨fun h => ?_, fun ⟨hgap, hrest⟩ => by rw [← hgap, hrest]⟩
    have htails := (List.cons.inj h).2
    -- both parts are at most as long as in the header, and together they are as long
    have hlength := congrArg List.length htails
    rw [List.length_append, List.length_append] at hlength
    have hgap := s.length_gapBehind_le g.gap
    have hrest := length_referenceValues_le g.stroke rest
    obtain ⟨hgaps, hvalues⟩ := List.append_inj htails (by omega)
    exact ⟨hgaps.symm, hvalues⟩

/-- A name stands for one noun in headers and scripts exactly if it is even. -/
theorem NounText.reference_eq_noun_iff (w : NounText) : w.reference = w.noun ↔ w.Even := by
  by_cases hfed : w.Unfed
  · rw [← String.toList_inj, toList_reference hfed, toList_noun, referenceValues_eq_iff]
    exact ⟨fun h => ⟨hfed, h⟩, fun h => h.2⟩
  · refine ⟨fun h => ?_, fun h => absurd h.1 hfed⟩
    have hfeed : w.first.isFeed = true ∨ ∃ g ∈ w.rest, g.stroke.isFeed = true := by
      by_contra hnone
      push Not at hnone
      exact hfed (by simpa [Unfed] using hnone)
    have hmem := feed_mem_headerValues hfeed
    rw [← toList_noun, ← h] at hmem
    exact absurd hmem w.feed_not_mem_reference

end Gamebook.Script
