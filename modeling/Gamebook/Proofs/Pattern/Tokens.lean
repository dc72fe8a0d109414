import Mathlib.Data.List.Find
import Gamebook.Proofs.Pattern.Filling
import Gamebook.Proofs.Script.Tiling

/-!
# Tokens with a noun in the hole

Where the hole is part of a word, the word falls into as many words as the noun has, the first and
the last of which take what stood around the hole (`Filling.words`). All other tokens stay
(`Filling.lexed_fill`). Joined by single spaces, the words make up the old word with the noun in the
hole. None of them becomes a numeral that is read as such, if the first word of the noun is none.
-/

namespace Gamebook

open Text Script

/-! ### Words -/

/-- Put a text in front of the first piece, cut at its spaces. -/
def ontoPieces (text : List Char) (pieces : List (List Char)) : List (List Char) :=
  text.foldr (fun c pieces => if c = ' ' then [] :: pieces else ontoFirst c pieces) pieces

namespace Filling

/-- The words into which a word falls. -/
def words (F : Filling) (text : List Char) : List (List Char) :=
  text.foldr (fun c pieces => if c = F.hole then ontoPieces F.noun pieces else ontoFirst c pieces)
    [[]]

/-- The tokens in place of a token. -/
def token (F : Filling) : Token → List Token
  | .word text => (F.words text.toList).map fun word => .word (String.ofList word)
  | t => [t]

/-- The lexemes in place of a lexeme. -/
def lexeme (F : Filling) : Lexeme → List Lexeme
  | .token t => (F.token t).map .token
  | .unexpected c => [.unexpected c]

end Filling

theorem ontoFirst_ne_nil {α : Type} (a : α) (pieces : List (List α)) : ontoFirst a pieces ≠ [] := by
  cases pieces <;> exact List.cons_ne_nil _ _

theorem ontoPieces_ne_nil {pieces : List (List Char)} (h : pieces ≠ []) (text : List Char) :
    ontoPieces text pieces ≠ [] := by
  cases text with
  | nil => exact h
  | cons c text =>
    rw [ontoPieces, List.foldr_cons]
    split
    · exact List.cons_ne_nil _ _
    · exact ontoFirst_ne_nil _ _

/-- A noun that is put in front leaves no piece empty but those that were. -/
theorem PlainNoun.ontoPieces {noun : List Char} (h : PlainNoun noun) {pieces : List (List Char)}
    (hpieces : ∀ piece ∈ pieces.tail, piece ≠ []) :
    ∀ piece ∈ Gamebook.ontoPieces noun pieces, piece ≠ [] := by
  have honto {c : Char} {pieces : List (List Char)} (hpieces : ∀ piece ∈ pieces.tail, piece ≠ []) :
      ∀ piece ∈ ontoFirst c pieces, piece ≠ [] := by
    cases pieces with
    | nil => simp [ontoFirst]
    | cons first pieces =>
      exact List.forall_mem_cons.mpr ⟨List.cons_ne_nil _ _, hpieces⟩
  have hne {c : Char} (hc : isPlain c = true) : c ≠ ' ' := Stroke.ne_of_isPlain hc rfl
  induction h with
  | last hc =>
    rw [Gamebook.ontoPieces, List.foldr_cons, if_neg (hne hc)]
    exact honto hpieces
  | char hc _ ih =>
    rw [Gamebook.ontoPieces, List.foldr_cons, if_neg (hne hc)]
    exact honto fun piece hpiece => ih piece (List.mem_of_mem_tail hpiece)
  | space hc _ ih =>
    rw [Gamebook.ontoPieces, List.foldr_cons, if_neg (hne hc), List.foldr_cons, if_pos rfl]
    exact List.forall_mem_cons.mpr ⟨List.cons_ne_nil _ _, ih⟩

theorem intercalate_ontoFirst {pieces : List (List Char)} (h : pieces ≠ []) (c : Char) :
    [' '].intercalate (ontoFirst c pieces) = c :: [' '].intercalate pieces := by
  obtain ⟨first, pieces, rfl⟩ := List.exists_cons_of_ne_nil h
  cases pieces with
  | nil => simp [ontoFirst]
  | cons second pieces => simp [ontoFirst, List.intercalate_cons_cons]

theorem intercalate_ontoPieces {pieces : List (List Char)} (h : pieces ≠ []) (text : List Char) :
    [' '].intercalate (ontoPieces text pieces) = text ++ [' '].intercalate pieces := by
  induction text with
  | nil => rfl
  | cons c text ih =>
    have hne : ontoPieces text pieces ≠ [] := ontoPieces_ne_nil h text
    have hcons : ontoPieces (c :: text) pieces = if c = ' ' then [] :: ontoPieces text pieces
        else ontoFirst c (ontoPieces text pieces) := rfl
    rw [hcons, List.cons_append, ← ih]
    split
    next hspace =>
      obtain ⟨first, more, hpieces⟩ := List.exists_cons_of_ne_nil hne
      rw [hpieces, List.intercalate_cons_cons, hspace]
      rfl
    next => exact intercalate_ontoFirst hne c

namespace Filling

variable {F : Filling} {cs : List Char} {c : Char}

theorem words_hole (cs : List Char) : F.words (F.hole :: cs) = ontoPieces F.noun (F.words cs) := by
  rw [words, List.foldr_cons, if_pos rfl]
  rfl

theorem words_char (hc : c ≠ F.hole) (cs : List Char) :
    F.words (c :: cs) = ontoFirst c (F.words cs) := by
  rw [words, List.foldr_cons, if_neg hc]
  rfl

theorem words_ne_nil (cs : List Char) : F.words cs ≠ [] := by
  cases cs with
  | nil => exact List.cons_ne_nil _ _
  | cons c cs =>
    by_cases hc : c = F.hole
    · rw [hc, words_hole]
      exact ontoPieces_ne_nil (words_ne_nil cs) F.noun
    · rw [words_char hc]
      exact ontoFirst_ne_nil _ _

/-- A word without the hole stays. -/
theorem words_of_notMem (h : F.hole ∉ cs) : F.words cs = [cs] := by
  induction cs with
  | nil => rfl
  | cons c cs ih =>
    rw [words_char fun hc => h (hc ▸ List.mem_cons_self),
      ih fun hmem => h (List.mem_cons_of_mem c hmem)]
    rfl

/-- Joined by spaces, the words are the old word with the noun in the hole. -/
theorem intercalate_words (cs : List Char) : [' '].intercalate (F.words cs) = F.fill cs := by
  induction cs with
  | nil => rfl
  | cons c cs ih =>
    by_cases hc : c = F.hole
    · rw [hc, words_hole, intercalate_ontoPieces (words_ne_nil cs), ih, fill_hole]
    · rw [words_char hc, intercalate_ontoFirst (words_ne_nil cs), ih, fill_char hc]

/-- None of the words is empty, but the first one of the empty word. -/
theorem ne_nil_of_mem_tail_words (cs : List Char) : ∀ word ∈ (F.words cs).tail, word ≠ [] := by
  induction cs with
  | nil => simp [words]
  | cons c cs ih =>
    by_cases hc : c = F.hole
    · rw [hc, words_hole]
      exact fun word hword => F.plain.ontoPieces ih word (List.mem_of_mem_tail hword)
    · obtain ⟨first, more, hwords⟩ := List.exists_cons_of_ne_nil (F.words_ne_nil cs)
      rw [hwords] at ih
      rw [words_char hc, hwords]
      exact ih

theorem ne_nil_of_mem_words (hne : cs ≠ []) : ∀ word ∈ F.words cs, word ≠ [] := by
  obtain ⟨c, cs, rfl⟩ := List.exists_cons_of_ne_nil hne
  have htail := ne_nil_of_mem_tail_words (F := F) cs
  by_cases hc : c = F.hole
  · rw [hc, words_hole]
    exact F.plain.ontoPieces htail
  · obtain ⟨first, more, hwords⟩ := List.exists_cons_of_ne_nil (F.words_ne_nil cs)
    rw [hwords] at htail
    rw [words_char hc, hwords]
    exact List.forall_mem_cons.mpr ⟨List.cons_ne_nil _ _, htail⟩

/-! ### Lexemes -/

theorem wordLength_fill (h : F.Bare cs) (hzero : wordLength cs = 0) :
    wordLength (F.fill cs) = 0 := by
  cases cs using escape_induction with
  | nil => rfl
  | lone =>
    have hlone : F.fill ['\\'] = ['\\'] := fill_mark rfl []
    rw [hlone]
    rfl
  | escape c cs =>
    rw [wordLength] at hzero
    split at hzero
    next hbreak => rw [fill_escape h.escape, wordLength, if_pos hbreak]
    next => cases hzero
  | char c cs hc =>
    have hescape {ds : List Char} : c = '\\' → ds = [] := fun heq => absurd heq hc
    rw [wordLength_ordinary hescape] at hzero
    split at hzero
    next => cases hzero
    next hword =>
      have hhole : c ≠ F.hole := by
        rintro rfl
        exact hword (isPlain_cases F.shown).1
      rw [fill_char hhole, wordLength_ordinary hescape, if_neg hword]

/-- No character of an operator is ordinary. -/
theorem operators_marks : ∀ entry ∈ operators, ∀ c ∈ entry.1, isPlain c = false := by
  have hall : (operators.all fun entry => entry.1.all fun c => !isPlain c) = true := by decide
  intro entry hentry c hc
  simpa using List.all_eq_true.mp (List.all_eq_true.mp hall entry hentry) c hc

/-- The same operator stands at the head of a text. -/
theorem find?_operators_fill (cs : List Char) :
    operators.find? (fun entry => entry.1.isPrefixOf (F.fill cs)) =
      operators.find? fun entry => entry.1.isPrefixOf cs := by
  refine List.find?_congr fun entry hentry => ?_
  rw [Bool.eq_iff_iff, List.isPrefixOf_iff_prefix, List.isPrefixOf_iff_prefix,
    prefix_fill (operators_marks entry hentry)]

/-- A noun in front of words. -/
theorem wordy_noun {noun : List Char} (hnoun : ∀ c ∈ noun, isPlain c = true ∨ c = ' ')
    (h : Wordy cs) : Wordy (noun ++ cs) ∧
      gapPieces (noun ++ cs) = ontoPieces noun (gapPieces cs) := by
  induction noun with
  | nil => exact ⟨h, rfl⟩
  | cons c noun ih =>
    obtain ⟨hwordy, hpieces⟩ := ih fun d hd => hnoun d (List.mem_cons_of_mem c hd)
    rw [List.cons_append, ontoPieces, List.foldr_cons, ← ontoPieces, ← hpieces]
    rcases hnoun c List.mem_cons_self with hc | rfl
    · obtain ⟨hword, hescape, hgap, -, -⟩ := isPlain_cases hc
      rw [if_neg (Stroke.ne_of_isPlain hc rfl), gapPieces_char hescape, hgap,
        if_neg Bool.false_ne_true]
      exact ⟨.char hword hwordy, rfl⟩
    · rw [if_pos rfl, gapPieces_char (by decide)]
      exact ⟨.gap rfl hwordy, rfl⟩

/-- A word becomes the words into which it falls. -/
theorem gapPieces_fill {raw : List Char} (hraw : WordText raw) (h : F.Bare raw) :
    Wordy (F.fill raw) ∧ gapPieces (F.fill raw) = F.words (unescape raw) := by
  induction hraw with
  | nil => exact ⟨.nil, rfl⟩
  | @char c raw hword _ ih =>
    obtain ⟨hwordy, hpieces⟩ := ih h.tail
    have hescape := ne_escape_of_isWordChar hword
    rw [unescape_char hescape]
    by_cases hhole : c = F.hole
    · rw [hhole, fill_hole, words_hole, ← hpieces]
      exact wordy_noun (fun _ => F.plain.mem) hwordy
    · rw [fill_char hhole, words_char hhole, ← hpieces, gapPieces_char hescape,
        isGap_of_isWordChar hword, if_neg Bool.false_ne_true]
      exact ⟨.char hword hwordy, rfl⟩
  | @escape c raw hreturn hfeed _ ih =>
    obtain ⟨hwordy, hpieces⟩ := ih h.tail.tail
    rw [fill_escape h.escape, unescape, words_char (escaped_ne_hole h.escape), ← hpieces]
    exact ⟨.escape hreturn hfeed hwordy, rfl⟩

/-- What is read of the word at the head of a text. -/
theorem lexed_fill_word {raw behind : List Char} (hraw : WordText raw) (hne : raw ≠ [])
    (hbehind : wordLength behind = 0) (h : F.Bare (raw ++ behind)) :
    lexed (F.fill (raw ++ behind)) =
      F.lexeme (.token (.word (String.ofList (unescape raw)))) ++ lexed (F.fill behind) := by
  obtain ⟨hwordy, hpieces⟩ := gapPieces_fill hraw h.left
  have hshown : unescape raw ≠ [] := by
    cases hraw with
    | nil => exact absurd rfl hne
    | char hword =>
      rw [unescape_char (ne_escape_of_isWordChar hword)]
      exact List.cons_ne_nil _ _
    | escape => exact List.cons_ne_nil _ _
  have hall : (F.words (unescape raw)).filter (· ≠ []) = F.words (unescape raw) :=
    List.filter_eq_self.mpr fun word hword => by
      simpa using ne_nil_of_mem_words hshown word hword
  rw [fill_append, hwordy.lexed_append (wordLength_fill h.right hbehind), gapWords, hpieces, hall,
    lexeme, token, String.toList_ofList, List.map_map, List.map_map]
  rfl

/-- An operator stays. -/
theorem token_operator {spelling : List Char} {t : Token} (h : (spelling, t) ∈ operators) :
    F.token t = [t] := by
  cases t with
  | word text => simp [operators] at h
  | _ => rfl

/-- What is read of a text with the noun in the hole. -/
theorem lexed_fill (h : F.Bare cs) : lexed (F.fill cs) = (lexed cs).flatMap F.lexeme := by
  induction cs using lexed_induction with
  | nil =>
    rw [fill_nil, lexed, lexemes, lexemesFrom]
    rfl
  | gap c rest hgap ih =>
    have hhole : c ≠ F.hole := ne_hole (by rw [isPlain, isWordChar_of_isGap hgap, Bool.false_and])
    rw [fill_char hhole, lexed_gap hgap, lexed_gap hgap, ih h.tail]
  | operator spelling t behind hfind ih =>
    have hentry := List.mem_of_find?_eq_some hfind
    have hfill : F.fill (spelling ++ behind) = spelling ++ F.fill behind := by
      rw [fill_append, fill_of_notMem fun hmem => ne_hole (operators_marks _ hentry _ hmem) rfl]
    have hfind' := F.find?_operators_fill (spelling ++ behind)
    rw [hfind, hfill] at hfind'
    rw [hfill, lexed_operator hfind', lexed_operator hfind, List.flatMap_cons, lexeme,
      token_operator hentry, ih h.right]
    rfl
  | word raw behind hraw hne hbehind hword ih =>
    rw [lexed_fill_word hraw hne hbehind h, hword, List.flatMap_cons, ih h.right]
  | unexpected c rest hgap hfind hzero ih =>
    have hhole : c ≠ F.hole := by
      rintro rfl
      rw [wordLength_char (isPlain_cases F.shown).1] at hzero
      cases hzero
    have hfind' := F.find?_operators_fill (c :: rest)
    have hzero' := wordLength_fill h hzero
    rw [fill_char hhole] at hfind' hzero' ⊢
    rw [lexed_unexpected (hfind'.trans hfind) hgap hzero', lexed_unexpected hfind hgap hzero,
      ih h.tail]
    rfl

/-- The tokens of a text with the noun in the hole, if all of it belongs to tokens. -/
theorem lexed?_fill (h : F.Bare cs) :
    lexed? (F.fill cs) = (lexed? cs).map fun us => us.flatMap F.token := by
  have hmap (us : List Token) : (us.map .token).flatMap F.lexeme =
      (us.flatMap F.token).map Lexeme.token := by
    induction us with
    | nil => rfl
    | cons u us ih =>
      rw [List.map_cons, List.flatMap_cons, List.flatMap_cons, List.map_append, ih]
      rfl
  cases hus : lexed? cs with
  | some us =>
    rw [Option.map_some, lexed?_eq_some_iff, lexed_fill h, lexed?_eq_some_iff.mp hus, hmap]
  | none =>
    obtain ⟨c, hc⟩ := lexed?_eq_none_iff.mp hus
    rw [Option.map_none, lexed?_eq_none_iff, lexed_fill h]
    exact ⟨c, List.mem_flatMap.mpr ⟨_, hc, List.mem_singleton.mpr rfl⟩⟩

/-! ### Numerals -/

theorem mem_head_ontoPieces {text : List Char} {pieces : List (List Char)} {d : Char}
    (hd : d ∈ text.takeWhile (· ≠ ' ')) :
    ∃ first more, ontoPieces text pieces = first :: more ∧ d ∈ first := by
  induction text with
  | nil => cases hd
  | cons c text ih =>
    by_cases hc : c = ' '
    · simp [hc] at hd
    · have hcons : ontoPieces (c :: text) pieces = ontoFirst c (ontoPieces text pieces) := if_neg hc
      rw [List.takeWhile_cons_of_pos (by simpa using hc)] at hd
      rw [hcons]
      rcases List.mem_cons.mp hd with rfl | hd
      · cases ontoPieces text pieces with
        | nil => exact ⟨_, _, rfl, List.mem_singleton.mpr rfl⟩
        | cons first more => exact ⟨_, _, rfl, List.mem_cons_self⟩
      · obtain ⟨first, more, hpieces, hmem⟩ := ih hd
        rw [hpieces]
        exact ⟨_, _, rfl, List.mem_cons_of_mem c hmem⟩

theorem mem_head_words (h : F.hole ∈ cs) {d : Char} (hd : d ∈ F.noun.takeWhile (· ≠ ' ')) :
    ∃ first more, F.words cs = first :: more ∧ d ∈ first := by
  induction cs with
  | nil => cases h
  | cons c cs ih =>
    by_cases hc : c = F.hole
    · rw [hc, words_hole]
      exact mem_head_ontoPieces hd
    · obtain ⟨first, more, hwords, hmem⟩ := ih ((List.mem_cons.mp h).resolve_left (Ne.symm hc))
      rw [words_char hc, hwords]
      exact ⟨_, _, rfl, List.mem_cons_of_mem c hmem⟩

variable (F) in
/-- Whether a numeral would be read where a word is: the hole is in the word, and the first of the
words into which it falls is a numeral. -/
def Numbers (text : List Char) : Prop :=
  F.hole ∈ text ∧ ∃ word ∈ (F.words text).head?, Decimal.toWord? word ≠ none

variable (F) in
/-- Whether the first word of the noun is more than digits. -/
def Unnumbered : Prop :=
  (F.noun.takeWhile (· ≠ ' ')).all Char.isDigit = false

theorem toWord?_eq_none {d : Char} (hd : d ∈ cs) (hplain : isPlain d = true)
    (hdigit : d.isDigit = false) : Decimal.toWord? cs = none := by
  refine Option.eq_none_iff_forall_ne_some.mpr fun n hn => ?_
  rcases isDigit_of_toWord? hn hd with hdigits | hsign | hsign
  · exact Bool.false_ne_true (hdigit.symm.trans hdigits)
  · exact Stroke.ne_of_isPlain hplain rfl hsign
  · exact Stroke.ne_of_isPlain hplain rfl hsign

/-- A word with the hole in it is no numeral. -/
theorem toWord?_hole (h : F.hole ∈ cs) : Decimal.toWord? cs = none :=
  toWord?_eq_none h F.shown F.undigit

/-- A noun that begins with more than digits makes no numeral. -/
theorem Unnumbered.not_numbers (h : F.Unnumbered) (text : List Char) : ¬ F.Numbers text := by
  rintro ⟨hmem, word, hword, hnumeral⟩
  rw [Unnumbered, List.all_eq_false] at h
  obtain ⟨d, hd, hdigit⟩ := h
  obtain ⟨first, more, hwords, hfirst⟩ := mem_head_words hmem hd
  rw [hwords, List.head?_cons, Option.mem_def, Option.some_inj] at hword
  have hspace : d ≠ ' ' := by simpa using List.mem_takeWhile_imp hd
  have hplain := (F.plain.mem ((List.takeWhile_prefix _).subset hd)).resolve_right hspace
  exact hnumeral (hword ▸ toWord?_eq_none hfirst hplain (Bool.not_eq_true _ ▸ hdigit))

variable (F) in
/-- Whether a numeral would be read behind a sign `#`, instead of a name with the hole in it. -/
def Counted (cs : List Char) : Prop :=
  ∃ front signs word behind, cs = front ++ '#' :: (signs ++ (word ++ behind)) ∧
    (∀ c ∈ signs, isGap c = true ∨ c = '-') ∧ WordText word ∧ F.Numbers (unescape word)

theorem Counted.of_isInfix {ds : List Char} (h : F.Counted ds) (hds : ds <:+: cs) :
    F.Counted cs := by
  obtain ⟨front, signs, word, behind, rfl, hsigns, hword, hnumbers⟩ := h
  obtain ⟨before, after, rfl⟩ := hds
  refine ⟨before ++ front, signs, word, behind ++ after, ?_, hsigns, hword, hnumbers⟩
  simp only [List.append_assoc, List.cons_append]

theorem Unnumbered.not_counted (h : F.Unnumbered) (cs : List Char) : ¬ F.Counted cs := by
  rintro ⟨-, -, word, -, -, -, -, hnumbers⟩
  exact h.not_numbers (unescape word) hnumbers

end Filling

end Gamebook
