import Gamebook.Proofs.Text.Brackets
import Gamebook.Story.Source
import Gamebook.Text.Clean
import Gamebook.Text.Escape

/-!
# Escaped texts

An author who wants a text as it is puts a backslash in front of every character that may have a
meaning, and writes a line feed as `\n`: `Text.escape`. What reads a source looks for markers in its
own way each time, but always from one character that is not escaped to the next. A text is *masked*
if each of these is harmless, and all that has to be known of a search is that it passes over what
is masked and looks on behind it.

Cleaning resolves the escape `\n` and keeps the others, so that a text is masked before and after
it, though not for the same searches.
-/

namespace Gamebook.Text

/-! ### Masked texts -/

/-- A text whose escapes are complete, with only harmless characters outside of them. -/
inductive Masked (harmless : Char → Prop) : List Char → Prop
  /-- The empty text. -/
  | nil : Masked harmless []
  /-- An escaped character in front. -/
  | escape (c : Char) {cs : List Char} : Masked harmless cs → Masked harmless ('\\' :: c :: cs)
  /-- A harmless character in front. -/
  | char {c : Char} {cs : List Char} :
      c ≠ '\\' → harmless c → Masked harmless cs → Masked harmless (c :: cs)

namespace Masked

variable {harmless : Char → Prop} {cs : List Char}

theorem of_forall (h : ∀ c ∈ cs, c ≠ '\\' ∧ harmless c) : Masked harmless cs := by
  induction cs with
  | nil => exact .nil
  | cons c cs ih =>
    obtain ⟨hc, hharmless⟩ := h c List.mem_cons_self
    exact .char hc hharmless (ih fun d hd => h d (List.mem_cons_of_mem c hd))

theorem mono {harmless' : Char → Prop} (hmono : ∀ c, harmless c → harmless' c)
    (h : Masked harmless cs) : Masked harmless' cs := by
  induction h with
  | nil => exact .nil
  | escape c _ ih => exact .escape c ih
  | char hc hharmless _ ih => exact .char hc (hmono _ hharmless) ih

theorem append {ds : List Char} (h : Masked harmless cs) (hds : Masked harmless ds) :
    Masked harmless (cs ++ ds) := by
  induction h with
  | nil => exact hds
  | escape c _ ih => exact .escape c ih
  | char hc hharmless _ ih => exact .char hc hharmless ih

theorem flatMap {piece : Char → List Char} (h : ∀ c ∈ cs, Masked harmless (piece c)) :
    Masked harmless (cs.flatMap piece) := by
  induction cs with
  | nil => exact .nil
  | cons c cs ih =>
    rw [List.flatMap_cons]
    exact (h c List.mem_cons_self).append (ih fun d hd => h d (List.mem_cons_of_mem c hd))

/-- A search that hits no harmless character passes over a masked text. -/
theorem find {hit : List Char → Bool} (hhit : ∀ c, harmless c → ∀ rest, hit (c :: rest) = false)
    (h : Masked harmless cs) (rest : List Char) :
    Text.find hit (cs ++ rest) = (Text.find hit rest).map (· + cs.length) := by
  induction h with
  | nil => simp
  | escape c _ ih =>
    rw [List.cons_append, List.cons_append, find_escape, ih, Option.map_map]
    rfl
  | char hc hharmless _ ih =>
    rw [List.cons_append, find_char hc, hhit _ hharmless, if_neg Bool.false_ne_true, ih,
      Option.map_map]
    rfl

/-- The search for what closes a bracket passes over a text in which none is open. -/
theorem findClose (opening closing : Char) (hopening : ¬ harmless opening)
    (hclosing : ¬ harmless closing) (h : Masked harmless cs) (depth : Nat) (rest : List Char) :
    Text.findClose opening closing depth (cs ++ rest) =
      (Text.findClose opening closing depth rest).map (· + cs.length) := by
  induction h with
  | nil => simp
  | escape c _ ih =>
    rw [List.cons_append, List.cons_append, findClose_escape, ih, Option.map_map]
    rfl
  | @char c cs hc hharmless _ ih =>
    have hopen : c ≠ opening := by rintro rfl; exact hopening hharmless
    have hclose : c ≠ closing := by rintro rfl; exact hclosing hharmless
    rw [List.cons_append, findClose_char hc hopen hclose, ih, Option.map_map]
    rfl

/-- No definition starts in a masked part of a quoted text. -/
theorem definitionStarts (hquote : ¬ harmless '"') (h : Masked harmless cs) (at' depth : Nat)
    (rest : List Char) : Source.definitionStarts at' true depth (cs ++ rest) =
      Source.definitionStarts (at' + cs.length) true depth rest := by
  induction h generalizing at' with
  | nil => rfl
  | escape c _ ih =>
    rw [List.cons_append, List.cons_append, Source.definitionStarts, ih, List.length_cons,
      List.length_cons, Nat.add_assoc, Nat.add_comm 2]
  | @char c cs hc hharmless _ ih =>
    have hne : (c != '"') = true := by
      rw [bne_iff_ne]
      rintro rfl
      exact hquote hharmless
    rw [List.cons_append, Source.definitionStarts, if_pos rfl, hne, ih, List.length_cons,
      Nat.add_assoc, Nat.add_comm 1]
    rintro _ _ rfl
    exact absurd rfl hc

end Masked

/-! ### Escaping -/

/-- Whether a character may have a meaning where it stands. -/
def isMarked (c : Char) : Bool :=
  isSpace c || isStructural c || c == '/' || c == '\\'

/-- A character as it is written to mean nothing but itself. -/
def escapeChar (c : Char) : List Char :=
  if c = '\n' then ['\\', 'n'] else if isMarked c then ['\\', c] else [c]

/-- A text as it is written to mean nothing but itself. -/
def escape (cs : List Char) : List Char :=
  cs.flatMap escapeChar

/-- A character as cleaning leaves it: the escape of a line feed is resolved. -/
def cleanedChar (c : Char) : List Char :=
  if c = '\n' then ['\n'] else escapeChar c

/-- An escaped text as cleaning leaves it. -/
def cleaned (cs : List Char) : List Char :=
  cs.flatMap cleanedChar

/-- There are three ways to write a character: as the escape of the line feed, behind a backslash,
and as it is. -/
theorem escapeChar_cases (c : Char) :
    (c = '\n' ∧ escapeChar c = ['\\', 'n'] ∧ cleanedChar c = ['\n']) ∨
    (c ≠ '\n' ∧ isMarked c = true ∧ escapeChar c = ['\\', c] ∧ cleanedChar c = ['\\', c]) ∨
    (isMarked c = false ∧ escapeChar c = [c] ∧ cleanedChar c = [c]) := by
  unfold cleanedChar escapeChar
  by_cases hfeed : c = '\n'
  · exact .inl ⟨hfeed, if_pos hfeed, if_pos hfeed⟩
  · rw [if_neg hfeed, if_neg hfeed]
    by_cases hmarked : isMarked c
    · exact .inr (.inl ⟨hfeed, hmarked, if_pos hmarked, if_pos hmarked⟩)
    · rw [Bool.not_eq_true] at hmarked
      rw [hmarked]
      exact .inr (.inr ⟨rfl, rfl, rfl⟩)

/-- A character that needs no escape is none that does. -/
theorem ne_of_isMarked {c d : Char} (hc : isMarked c = false) (hd : isMarked d = true) : c ≠ d := by
  rintro rfl
  rw [hc] at hd
  cases hd

/-- In an escaped text every character that may have a meaning is escaped. -/
theorem masked_escape (cs : List Char) : Masked (isMarked · = false) (escape cs) := by
  refine Masked.flatMap fun c _ => ?_
  rcases escapeChar_cases c with ⟨-, heq, -⟩ | ⟨-, -, heq, -⟩ | ⟨hplain, heq, -⟩ <;> rw [heq]
  · exact .escape 'n' .nil
  · exact .escape c .nil
  · exact .char (ne_of_isMarked hplain (by decide)) hplain .nil

/-- Once it is cleaned, an escaped text still has no quotation mark outside of escapes. -/
theorem masked_cleaned (cs : List Char) : Masked (· ≠ '"') (cleaned cs) := by
  refine Masked.flatMap fun c _ => ?_
  rcases escapeChar_cases c with ⟨-, -, heq⟩ | ⟨-, -, -, heq⟩ | ⟨hplain, -, heq⟩ <;> rw [heq]
  · exact .char (by decide) (by decide) .nil
  · exact .escape c .nil
  · exact .char (ne_of_isMarked hplain (by decide)) (ne_of_isMarked hplain (by decide)) .nil

/-- An escaped text is on one line. -/
theorem feed_not_mem_escape (cs : List Char) : '\n' ∉ escape cs := by
  intro hfeed
  obtain ⟨c, -, hfeed⟩ := List.mem_flatMap.mp hfeed
  rcases escapeChar_cases c with ⟨-, heq, -⟩ | ⟨hc, -, heq, -⟩ | ⟨hplain, heq, -⟩ <;>
    rw [heq] at hfeed
  · simp at hfeed
  · simp [hc.symm] at hfeed
  · exact ne_of_isMarked hplain (by decide) (List.mem_singleton.mp hfeed).symm

/-- Unescaping gives the text back. -/
theorem unescape_cleaned (cs : List Char) : unescape (cleaned cs) = cs := by
  induction cs with
  | nil => rfl
  | cons c cs ih =>
    rw [cleaned, List.flatMap_cons, ← cleaned]
    rcases escapeChar_cases c with ⟨rfl, -, heq⟩ | ⟨hfeed, hmarked, -, heq⟩ | ⟨hplain, -, heq⟩ <;>
      rw [heq]
    · rw [List.singleton_append, unescape, ih]
      simp
    · have hn : c ≠ 'n' := (ne_of_isMarked (by decide) hmarked).symm
      rw [List.cons_append, List.singleton_append, unescape, ih, escaped, if_neg hn]
    · have hc : c ≠ '\\' := ne_of_isMarked hplain (by decide)
      rw [List.singleton_append, unescape_char hc, ih]

/-! ### Cleaning -/

/-- A character that is no white space, and no seam of quoted texts, is kept. -/
theorem cleanFrom_char {place : Place} {last : Option Char} {c : Char} {rest : List Char}
    (hc : c ≠ '\\') (hspace : isSpace c = false)
    (hseam : ¬ (place = .text 0 ∧ c = '"' ∧ (trimStart rest).head? = some '"')) :
    cleanFrom place last (c :: rest) = c :: cleanFrom (place.step c) (some c) rest := by
  rw [cleanFrom, hspace, if_neg Bool.false_ne_true, if_neg hseam]
  all_goals
    intros
    subst_vars
    exact absurd rfl hc

/-- A piece of a script without white space, quotes and escapes is kept. -/
theorem cleanFrom_append {front : List Char}
    (hfront : ∀ c ∈ front, c ≠ '\\' ∧ c ≠ '"' ∧ isSpace c = false) (last : Option Char)
    (rest : List Char) : cleanFrom .script last (front ++ rest) =
      front ++ cleanFrom .script (front.getLast?.or last) rest := by
  induction front generalizing last with
  | nil => simp
  | cons c front ih =>
    obtain ⟨hc, hquote, hspace⟩ := hfront c List.mem_cons_self
    have hlast : (c :: front).getLast?.or last = front.getLast?.or (some c) := by
      rw [List.getLast?_cons]
      cases front.getLast? <;> rfl
    rw [List.cons_append, cleanFrom_char hc hspace (by simp), Place.step, if_neg hquote,
      ih (fun d hd => hfront d (List.mem_cons_of_mem c hd)), hlast]
    rfl

/-- In a quoted text that ends the source, cleaning leaves all escapes but that of the line feed. -/
theorem cleanFrom_escape (cs : List Char) (last : Option Char) :
    cleanFrom (.text 0) last (escape cs ++ ['"']) = cleaned cs ++ ['"'] := by
  induction cs generalizing last with
  | nil =>
    refine (cleanFrom_char (by decide) (by decide) (by simp [trimStart])).trans ?_
    rw [cleanFrom]
    rfl
  | cons c cs ih =>
    rw [escape, cleaned, List.flatMap_cons, List.flatMap_cons, ← escape, ← cleaned,
      List.append_assoc, List.append_assoc]
    rcases escapeChar_cases c with ⟨rfl, heq, heq'⟩ | ⟨hfeed, hmarked, heq, heq'⟩ |
      ⟨hplain, heq, heq'⟩ <;> rw [heq, heq']
    · rw [List.cons_append, List.singleton_append, List.singleton_append, cleanFrom, ih]
    · have hn : c ≠ 'n' := (ne_of_isMarked (by decide) hmarked).symm
      rw [List.cons_append, List.singleton_append, cleanFrom, ih]
      · rfl
      · exact hn
    · have hquote : c ≠ '"' := ne_of_isMarked hplain (by decide)
      have hopen : c ≠ '<' := ne_of_isMarked hplain (by decide)
      have hspace : isSpace c = false := by
        simp only [isMarked, Bool.or_eq_false_iff] at hplain
        exact hplain.1.1.1
      have hstep : (Place.text 0).step c = .text 0 := by
        rw [Place.step, if_neg hopen, if_neg hquote]
      rw [List.singleton_append, cleanFrom_char (ne_of_isMarked hplain (by decide)) hspace
        fun h => hquote h.2.1, hstep, ih]
      rfl

end Gamebook.Text
