import Gamebook.Proofs.Script.Writing
import Gamebook.Proofs.Text.Joining

/-!
# Words between gaps

A text of words and gaps, without operators, is read as the words that stand between the gaps
(`Wordy.lexed_append`). It is so in front of any text that does not go on the last word.
-/

namespace Gamebook.Script

open Text

/-- A text of gaps, of characters that a word may hold, and of escapes that it may hold. -/
inductive Wordy : List Char → Prop
  /-- The empty text. -/
  | nil : Wordy []
  /-- A gap in front. -/
  | gap {c : Char} {cs : List Char} : isGap c = true → Wordy cs → Wordy (c :: cs)
  /-- An ordinary character in front. -/
  | char {c : Char} {cs : List Char} : isWordChar c = true → Wordy cs → Wordy (c :: cs)
  /-- An escaped character in front. -/
  | escape {c : Char} {cs : List Char} : c ≠ '\r' → c ≠ '\n' → Wordy cs → Wordy ('\\' :: c :: cs)

/-- What stands between the gaps of a text, with the escapes resolved. Where gaps stand side by
side, and at the ends, pieces are empty. -/
def gapPieces : List Char → List (List Char)
  | [] => [[]]
  | '\\' :: c :: rest => ontoFirst (escaped c) (gapPieces rest)
  | c :: rest => if isGap c then [] :: gapPieces rest else ontoFirst c (gapPieces rest)

/-- The words of a text of words and gaps. -/
def gapWords (cs : List Char) : List String :=
  ((gapPieces cs).filter (· ≠ [])).map String.ofList

/-- What is read at the places of a text, wherever they are. -/
def lexed (cs : List Char) : List Lexeme :=
  (lexemes cs).map (·.value)

/-- Whether a text does not go on a word in front of it. -/
def Stops (behind : List Char) : Prop :=
  ∀ c ∈ behind.head?, c ≠ '\\' ∧ isWordChar c = false

instance (behind : List Char) : Decidable (Stops behind) :=
  inferInstanceAs (Decidable (∀ c ∈ behind.head?, c ≠ '\\' ∧ isWordChar c = false))

theorem ne_escape_of_isGap {c : Char} (h : isGap c = true) : c ≠ '\\' := by
  rintro rfl
  cases h

theorem ne_escape_of_isWordChar {c : Char} (h : isWordChar c = true) : c ≠ '\\' := by
  rintro rfl
  cases h

theorem isGap_of_isWordChar {c : Char} (h : isWordChar c = true) : isGap c = false := by
  rw [isWordChar, Bool.and_eq_true, Bool.not_eq_true'] at h
  exact h.1

theorem isWordChar_of_isGap {c : Char} (h : isGap c = true) : isWordChar c = false := by
  rw [isWordChar, h]
  rfl

theorem gapPieces_char {c : Char} (hc : c ≠ '\\') (cs : List Char) :
    gapPieces (c :: cs) = if isGap c then [] :: gapPieces cs else ontoFirst c (gapPieces cs) := by
  rw [gapPieces]
  rintro _ _ rfl
  exact absurd rfl hc

theorem wordLength_stop {behind : List Char} (h : Stops behind) : wordLength behind = 0 := by
  cases behind with
  | nil => rfl
  | cons c behind =>
    obtain ⟨hc, hword⟩ := h c rfl
    rw [wordLength, hword]
    · rfl
    · rintro _ _ rfl
      exact absurd rfl hc

theorem wordLength_char {c : Char} (h : isWordChar c = true) (cs : List Char) :
    wordLength (c :: cs) = wordLength cs + 1 := by
  rw [wordLength, if_pos h]
  rintro _ _ rfl
  exact absurd h (by decide)

/-- The first word of a text reaches up to the first gap. Behind it the text goes on with a gap, or
is at its end. -/
theorem Wordy.wordLength {cs : List Char} (h : Wordy cs) {behind : List Char}
    (hbehind : Script.wordLength behind = 0) : ∃ raw more pieces, cs = raw ++ more ∧
      Script.wordLength (cs ++ behind) = raw.length ∧ (raw ≠ [] → unescape raw ≠ []) ∧
      Wordy more ∧ (∀ c ∈ more.head?, isGap c = true) ∧
      gapPieces cs = unescape raw :: pieces ∧ gapPieces more = [] :: pieces := by
  induction h with
  | nil => exact ⟨[], [], [], rfl, hbehind, fun h => absurd rfl h, .nil,
      by simp, rfl, rfl⟩
  | @gap c cs hgap h _ =>
    have hpieces : gapPieces (c :: cs) = [] :: gapPieces cs := by
      rw [gapPieces_char (ne_escape_of_isGap hgap), if_pos hgap]
    have hstops : Stops (c :: (cs ++ behind)) := by
      rintro d ⟨⟩
      exact ⟨ne_escape_of_isGap hgap, isWordChar_of_isGap hgap⟩
    refine ⟨[], c :: cs, gapPieces cs, rfl, wordLength_stop hstops, fun h => absurd rfl h,
      .gap hgap h, ?_, hpieces, hpieces⟩
    rintro d ⟨⟩
    exact hgap
  | @char c cs hword _ ih =>
    obtain ⟨raw, more, pieces, rfl, hlength, -, hmore, hhead, hpieces, hrest⟩ := ih
    have hc := ne_escape_of_isWordChar hword
    refine ⟨c :: raw, more, pieces, rfl, ?_, ?_, hmore, hhead, ?_, hrest⟩
    · rw [List.cons_append, wordLength_char hword, hlength]
      rfl
    · rw [unescape_char hc]
      exact fun _ => List.cons_ne_nil _ _
    · rw [gapPieces_char hc, isGap_of_isWordChar hword, unescape_char hc, hpieces]
      rfl
  | @escape c cs hreturn hfeed _ ih =>
    obtain ⟨raw, more, pieces, rfl, hlength, -, hmore, hhead, hpieces, hrest⟩ := ih
    refine ⟨'\\' :: c :: raw, more, pieces, rfl, ?_, fun _ => List.cons_ne_nil _ _,
      hmore, hhead, ?_, hrest⟩
    · rw [List.cons_append, List.cons_append, Script.wordLength, hlength]
      simp [hreturn, hfeed]
    · rw [gapPieces, hpieces]
      rfl

/-- A word is read up to the gap behind it. -/
theorem ofText_wordy {c : Char} {raw rest : List Char} (hc : c = '\\' ∨ c ∉ reserved)
    (hlength : wordLength (c :: (raw ++ rest)) = (c :: raw).length) :
    Lexeme.ofText c (raw ++ rest) =
      (.token (.word (String.ofList (unescape (c :: raw)))), raw.length) := by
  rw [Lexeme.ofText, find?_operators hc, hlength]
  dsimp only [List.length_cons]
  rw [List.take_left]

/-- What is read does not depend on the offset. -/
theorem map_value_lexemesFrom (start : Nat) (cs : List Char) :
    (lexemesFrom start cs).map (·.value) = lexed cs := by
  rw [lexed, lexemes]
  generalize 0 = start'
  induction hn : cs.length using Nat.strongRecOn generalizing cs start start' with
  | ind n ih =>
    subst hn
    cases cs with
    | nil => rw [lexemesFrom, lexemesFrom]
    | cons c rest =>
      rw [lexemesFrom, lexemesFrom]
      split
      · exact ih rest.length (Nat.lt_succ_self _) _ rest _ rfl
      · dsimp only
        rw [List.map_cons, List.map_cons]
        refine congrArg _ (ih _ ?_ _ _ _ rfl)
        rw [List.length_drop, List.length_cons]
        omega

/-- Lexemes that are tokens only. -/
theorem values_tokensOf {ls : List (Located Lexeme)} {us : List Token}
    (h : ls.map (·.value) = us.map .token) :
    Tokens.values (tokensOf ls) = us ∧ unexpectedOf ls = [] := by
  induction us generalizing ls with
  | nil =>
    rw [List.map_nil, List.map_eq_nil_iff] at h
    rw [h]
    exact ⟨rfl, rfl⟩
  | cons u us ih =>
    obtain ⟨l, ls, rfl, hl, hls⟩ := List.map_eq_cons_iff.mp h
    obtain ⟨hvalues, hnone⟩ := ih hls
    rw [tokensOf, unexpectedOf, List.filterMap_cons_some (b := ⟨u, l.span⟩) (by rw [hl]),
      List.filterMap_cons_none (by rw [hl])]
    exact ⟨congrArg (u :: ·) hvalues, hnone⟩

/-- Lexemes are tokens only, if none of them is unexpected. -/
theorem eq_map_tokensOf {ls : List (Located Lexeme)} (h : unexpectedOf ls = []) :
    ls = (tokensOf ls).map fun t => ⟨.token t.value, t.span⟩ := by
  induction ls with
  | nil => rfl
  | cons l ls ih =>
    rw [unexpectedOf, List.filterMap_cons] at h
    obtain ⟨value, span⟩ := l
    cases value with
    | token t => exact congrArg (_ :: ·) (ih h)
    | unexpected c => cases h

theorem map_value_eq_of_unexpectedOf {ls : List (Located Lexeme)} (h : unexpectedOf ls = []) :
    ls.map (·.value) = (Tokens.values (tokensOf ls)).map .token := by
  have hvalues := congrArg (List.map (·.value)) (eq_map_tokensOf h)
  rw [List.map_map] at hvalues
  rw [hvalues, Tokens.values, List.map_map]
  rfl

/-- The tokens of a text are what is read of it, if nothing else is. -/
theorem lexed?_eq_some_iff {cs : List Char} {us : List Token} :
    lexed? cs = some us ↔ lexed cs = us.map .token := by
  refine ⟨fun h => ?_, fun h => ?_⟩
  · rw [lexed?] at h
    split at h
    next hnone => exact Option.some.inj h ▸ map_value_eq_of_unexpectedOf hnone
    next => cases h
  · obtain ⟨hvalues, hnone⟩ := values_tokensOf h
    rw [lexed?, if_pos hnone, hvalues]

/-- There is something else just if a character starts no token. -/
theorem lexed?_eq_none_iff {cs : List Char} :
    lexed? cs = none ↔ ∃ c, .unexpected c ∈ lexed cs := by
  have hnil : unexpectedOf (lexemes cs) = [] ↔ ∀ c, .unexpected c ∉ lexed cs := by
    rw [unexpectedOf, List.filterMap_eq_nil_iff, lexed]
    refine ⟨fun h c hc => ?_, fun h l hl => ?_⟩
    · obtain ⟨l, hl, hvalue⟩ := List.mem_map.mp hc
      have hnone := h l hl
      rw [hvalue] at hnone
      cases hnone
    · cases hvalue : l.value with
      | token t => rfl
      | unexpected c => exact absurd (List.mem_map.mpr ⟨l, hl, hvalue⟩) (h c)
  rw [lexed?, ite_eq_right_iff, ← not_forall_not, ← hnil]
  simp

/-- Where a word begins. -/
theorem Wordy.head_cases {c : Char} {cs : List Char} (h : Wordy (c :: cs)) :
    (isGap c = true ∧ Wordy cs) ∨ (isGap c = false ∧ (c = '\\' ∨ c ∉ reserved)) := by
  cases h with
  | gap hgap h => exact .inl ⟨hgap, h⟩
  | char hword =>
    refine .inr ⟨isGap_of_isWordChar hword, .inr fun hreserved => ?_⟩
    rw [isWordChar, Bool.and_eq_true, Bool.not_eq_true', Bool.not_eq_true'] at hword
    have hcontains : reserved.contains c = true := List.contains_iff_mem.mpr hreserved
    rw [hcontains] at hword
    cases hword.2
  | escape => exact .inr ⟨rfl, .inl rfl⟩

/-- A text of words and gaps is read as its words, whatever stands behind it and does not go on the
last one. -/
theorem Wordy.lexed_append {cs : List Char} (h : Wordy cs) {behind : List Char}
    (hbehind : Script.wordLength behind = 0) :
    lexed (cs ++ behind) = (gapWords cs).map (fun word => .token (.word word)) ++ lexed behind := by
  -- induction on the length, since a word is read in one go
  induction hn : cs.length using Nat.strongRecOn generalizing cs with
  | ind n ih =>
    subst hn
    cases cs with
    | nil => rfl
    | cons c cs =>
      rcases h.head_cases with ⟨hgap, hrest⟩ | ⟨hgap, hc⟩
      · have hwords : gapWords (c :: cs) = gapWords cs := by
          rw [gapWords, gapWords, gapPieces_char (ne_escape_of_isGap hgap), if_pos hgap]
          rfl
        rw [hwords, ← ih cs.length (Nat.lt_succ_self _) hrest rfl, List.cons_append, lexed, lexemes,
          lexemesFrom, if_pos hgap]
        exact map_value_lexemesFrom _ _
      · obtain ⟨raw, more, pieces, hcs, hlength, hraw, hmore, hhead, hpieces, hrest⟩ :=
          h.wordLength hbehind
        have hne : raw ≠ [] := by
          rintro rfl
          rw [List.nil_append] at hcs
          subst hcs
          rw [hhead c rfl] at hgap
          cases hgap
        obtain ⟨d, raw, rfl⟩ := List.exists_cons_of_ne_nil hne
        rw [List.cons_append] at hcs
        obtain ⟨rfl, rfl⟩ := List.cons.inj hcs
        rw [List.cons_append, List.append_assoc] at hlength
        have hwords : gapWords (c :: (raw ++ more)) =
            String.ofList (unescape (c :: raw)) :: gapWords more := by
          rw [gapWords, gapWords, hpieces, hrest]
          simp [hraw hne]
        have hfirst := ofText_wordy hc hlength
        have hbehind := ih more.length
          (by simp only [List.length_append, List.length_cons]; omega) hmore rfl
        rw [List.cons_append, List.append_assoc, lexed, lexemes, lexemesFrom, hgap,
          if_neg Bool.false_ne_true, hfirst]
        dsimp only
        rw [List.drop_left, List.map_cons, map_value_lexemesFrom, hbehind, hwords]
        rfl

end Gamebook.Script
