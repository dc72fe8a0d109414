import Gamebook.Pattern
import Gamebook.Proofs.Script.NounText
import Gamebook.Proofs.Text.Bytes

/-!
# Names put into texts

A pattern is expanded by putting a noun in for its placeholder, character for character. Here the
placeholder is a single ordinary character, the *hole*, and the noun is a name of ordinary
characters with single spaces between its words. Such a name means nothing but itself wherever it
stands: no search stops in it, nothing in it is trimmed or escaped, and it belongs to a word in
front of it or behind it just as the hole does. So whatever is done to a text is done in the same
way to the text with the noun in the hole, unless the hole is escaped.
-/

namespace Gamebook

open Text Script

/-! ### Names -/

/-- A name of ordinary characters with single spaces between its words. -/
inductive PlainNoun : List Char → Prop
  /-- A last character. -/
  | last {c : Char} : isPlain c = true → PlainNoun [c]
  /-- A character in front. -/
  | char {c : Char} {cs : List Char} : isPlain c = true → PlainNoun cs → PlainNoun (c :: cs)
  /-- A character and a space in front. -/
  | space {c : Char} {cs : List Char} :
      isPlain c = true → PlainNoun cs → PlainNoun (c :: ' ' :: cs)

namespace PlainNoun

variable {cs : List Char}

/-- A name begins with an ordinary character. -/
theorem exists_cons (h : PlainNoun cs) : ∃ c rest, cs = c :: rest ∧ isPlain c = true := by
  cases h with
  | last hc => exact ⟨_, _, rfl, hc⟩
  | char hc => exact ⟨_, _, rfl, hc⟩
  | space hc => exact ⟨_, _, rfl, hc⟩

/-- A name has no other characters than ordinary ones and spaces. -/
theorem mem (h : PlainNoun cs) {c : Char} (hc : c ∈ cs) : isPlain c = true ∨ c = ' ' := by
  induction h with
  | last hplain => exact .inl (List.mem_singleton.mp hc ▸ hplain)
  | char hplain _ ih =>
    rcases List.mem_cons.mp hc with rfl | hc
    · exact .inl hplain
    · exact ih hc
  | space hplain _ ih =>
    rcases List.mem_cons.mp hc with rfl | hc
    · exact .inl hplain
    · exact (List.mem_cons.mp hc).elim .inr ih

/-- A name means nothing but itself, whatever looks at it. -/
theorem masked (h : PlainNoun cs) : Masked (fun c => isPlain c = true ∨ c = ' ') cs := by
  refine .of_forall fun c hc => ⟨?_, h.mem hc⟩
  rcases h.mem hc with hplain | rfl
  · exact (isPlain_cases hplain).2.1
  · decide

theorem concat (h : PlainNoun cs) {c : Char} (hc : isPlain c = true) : PlainNoun (cs ++ [c]) := by
  induction h with
  | last hd => exact .char hd (.last hc)
  | char hd _ ih => exact .char hd ih
  | space hd _ ih => exact .space hd ih

theorem concat_space (h : PlainNoun cs) {c : Char} (hc : isPlain c = true) :
    PlainNoun (cs ++ [' ', c]) := by
  induction h with
  | last hd => exact .space hd (.last hc)
  | char hd _ ih => exact .char hd ih
  | space hd _ ih => exact .space hd ih

/-- There is nothing to unescape in a name. -/
theorem unescape (h : PlainNoun cs) : Text.unescape cs = cs := by
  induction h with
  | last hc => exact unescape_char (isPlain_cases hc).2.1 []
  | char hc _ ih => rw [unescape_char (isPlain_cases hc).2.1, ih]
  | space hc _ ih => rw [unescape_char (isPlain_cases hc).2.1, unescape_char (by decide), ih]

/-- A name may be read from its end. -/
theorem reverse (h : PlainNoun cs) : PlainNoun cs.reverse := by
  induction h with
  | last hc => exact .last hc
  | char hc _ ih =>
    rw [List.reverse_cons]
    exact ih.concat hc
  | space hc _ ih =>
    rw [List.reverse_cons, List.reverse_cons, List.append_assoc]
    exact ih.concat_space hc

end PlainNoun

/-! ### Fillings -/

/-- A hole, and the noun to put into it. -/
structure Filling where
  hole : Char
  noun : List Char
  shown : isPlain hole = true
  undigit : hole.isDigit = false
  plain : PlainNoun noun

namespace Filling

variable (F : Filling)

/-- A text with the noun in the hole. -/
def fill (cs : List Char) : List Char :=
  cs.flatMap fun c => if c = F.hole then F.noun else [c]

/-- A name with the noun in the hole. -/
def name (text : String) : String :=
  String.ofList (F.fill text.toList)

/-- The same, read from the end. -/
def reverse : Filling :=
  { F with noun := F.noun.reverse, plain := F.plain.reverse }

variable {F} {c : Char} {cs ds : List Char}

@[simp] theorem fill_nil : F.fill [] = [] := rfl

/-- Two texts are filled one by one. -/
@[simp] theorem fill_append (cs ds : List Char) : F.fill (cs ++ ds) = F.fill cs ++ F.fill ds :=
  List.flatMap_append

/-- The hole becomes the noun. -/
theorem fill_hole (cs : List Char) : F.fill (F.hole :: cs) = F.noun ++ F.fill cs := by
  rw [fill, List.flatMap_cons, if_pos rfl]
  rfl

theorem fill_char (hc : c ≠ F.hole) (cs : List Char) : F.fill (c :: cs) = c :: F.fill cs := by
  rw [fill, List.flatMap_cons, if_neg hc]
  rfl

/-- A character that is not ordinary is no hole. -/
theorem ne_hole (hc : isPlain c = false) : c ≠ F.hole :=
  (Stroke.ne_of_isPlain F.shown hc).symm

theorem ne_hole_of_isSpace (hc : isSpace c = true) : c ≠ F.hole :=
  ne_hole (by rw [isPlain, hc, Bool.not_true, Bool.and_false])

/-- A character that is not ordinary stays. -/
theorem fill_mark (hc : isPlain c = false) (cs : List Char) : F.fill (c :: cs) = c :: F.fill cs :=
  fill_char (ne_hole hc) cs

/-- A text without the hole stays. -/
theorem fill_of_notMem (h : F.hole ∉ cs) : F.fill cs = cs := by
  induction cs with
  | nil => rfl
  | cons c cs ih =>
    rw [fill_char fun hc => h (hc ▸ List.mem_cons_self),
      ih fun hmem => h (List.mem_cons_of_mem c hmem)]

/-- Where the text is at its end, where the hole is, and where another character is. -/
theorem fill_cases (cs : List Char) : (cs = [] ∧ F.fill cs = []) ∨
    (∃ c rest, c ≠ F.hole ∧ cs = c :: rest ∧ F.fill cs = c :: F.fill rest) ∨
    ∃ rest d more, cs = F.hole :: rest ∧ isPlain d = true ∧ F.noun = d :: more ∧
      F.fill cs = d :: (more ++ F.fill rest) := by
  cases cs with
  | nil => exact .inl ⟨rfl, rfl⟩
  | cons c rest =>
    by_cases hc : c = F.hole
    · obtain ⟨d, more, hnoun, hd⟩ := F.plain.exists_cons
      refine .inr (.inr ⟨rest, d, more, by rw [hc], hd, hnoun, ?_⟩)
      rw [hc, fill_hole, hnoun]
      rfl
    · exact .inr (.inl ⟨c, rest, hc, rfl, fill_char hc rest⟩)

/-- A noun is not empty, so no text becomes empty. -/
theorem fill_eq_nil_iff : F.fill cs = [] ↔ cs = [] := by
  rcases F.fill_cases cs with ⟨rfl, hfill⟩ | ⟨c, rest, -, rfl, hfill⟩ |
    ⟨rest, d, more, rfl, -, -, hfill⟩ <;> simp [hfill]

/-- A text that is filled from its end has the reversed noun in the hole. -/
theorem fill_reverse (F : Filling) (cs : List Char) :
    (F.fill cs).reverse = F.reverse.fill cs.reverse := by
  induction cs with
  | nil => rfl
  | cons c cs ih =>
    have hone : (F.fill [c]).reverse = F.reverse.fill [c] := by
      by_cases hc : c = F.hole
      · have hc' : c = F.reverse.hole := hc
        rw [hc, fill_hole, ← hc, hc', fill_hole, fill_nil, fill_nil, List.append_nil,
          List.append_nil]
        rfl
      · rw [fill_char hc, fill_char (F := F.reverse) hc]
        rfl
    rw [← List.singleton_append, fill_append, List.reverse_append, List.reverse_append,
      fill_append, ih, hone]
    rfl

@[simp] theorem name_toList (text : String) : (F.name text).toList = F.fill text.toList :=
  String.toList_ofList

theorem name_ofList (cs : List Char) : F.name (String.ofList cs) = String.ofList (F.fill cs) := by
  rw [name, String.toList_ofList]

/-- The hole by itself becomes the noun. -/
theorem name_hole : F.name (String.singleton F.hole) = String.ofList F.noun := by
  rw [name, String.toList_singleton, fill_hole, fill_nil, List.append_nil]

/-- A name without the hole stays. -/
theorem name_of_notMem {text : String} (h : F.hole ∉ text.toList) : F.name text = text := by
  rw [name, fill_of_notMem h, String.ofList_toList]

theorem isEmpty_name (text : String) : (F.name text).isEmpty = text.isEmpty := by
  have hiff : F.name text = "" ↔ text = "" := by
    rw [← String.toList_eq_nil_iff, name_toList, fill_eq_nil_iff, String.toList_eq_nil_iff]
  rw [Bool.eq_iff_iff, String.isEmpty_iff, String.isEmpty_iff, hiff]

/-! ### Ends of texts -/

/-- A text begins with marks just if it does with the noun in the hole. -/
theorem prefix_fill {marks : List Char} (h : ∀ c ∈ marks, isPlain c = false) :
    marks <+: F.fill cs ↔ marks <+: cs := by
  induction marks generalizing cs with
  | nil => simp
  | cons m marks ih =>
    have hm := h m List.mem_cons_self
    rcases F.fill_cases cs with ⟨rfl, hfill⟩ | ⟨c, rest, -, rfl, hfill⟩ |
      ⟨rest, d, more, rfl, hd, -, hfill⟩
    · rw [hfill]
    · rw [hfill, List.cons_prefix_cons, List.cons_prefix_cons,
        ih fun c hc => h c (List.mem_cons_of_mem m hc)]
    · rw [hfill, List.cons_prefix_cons, List.cons_prefix_cons]
      exact ⟨fun hp => absurd hp.1.symm (Stroke.ne_of_isPlain hd hm),
        fun hp => absurd hp.1 (ne_hole hm)⟩

/-- A mark stands at the head of a text just if it does with the noun in the hole. -/
theorem head?_fill (hc : isPlain c = false) : (F.fill cs).head? = some c ↔ cs.head? = some c := by
  have hstarts (ds : List Char) : ds.head? = some c ↔ [c] <+: ds := by
    rw [List.head?_eq_some_iff]
    exact ⟨fun ⟨rest, heq⟩ => ⟨rest, heq.symm⟩, fun ⟨rest, heq⟩ => ⟨rest, heq.symm⟩⟩
  rw [hstarts, hstarts, prefix_fill]
  simpa using hc

/-- What holds of no ordinary character holds at the head of a text just if it does with the noun in
the hole. -/
theorem all_head?_fill {p : Char → Bool} (hp : ∀ c, isPlain c = true → p c = false) :
    (F.fill cs).head?.all p = cs.head?.all p := by
  rcases F.fill_cases cs with ⟨rfl, hfill⟩ | ⟨c, rest, -, rfl, hfill⟩ |
    ⟨rest, d, more, rfl, hd, -, hfill⟩
  · rfl
  · rw [hfill]
    rfl
  · rw [hfill, List.head?_cons, List.head?_cons, Option.all_some, Option.all_some, hp d hd,
      hp _ F.shown]

/-- A row of characters at the head of a text, none of which is ordinary, is followed by the rest
with the noun in the hole. -/
theorem span_fill {p : Char → Bool} (hp : ∀ c, isPlain c = true → p c = false) (cs : List Char) :
    (F.fill cs).takeWhile p = cs.takeWhile p ∧
      (F.fill cs).dropWhile p = F.fill (cs.dropWhile p) := by
  induction cs with
  | nil => exact ⟨rfl, rfl⟩
  | cons c cs ih =>
    rcases F.fill_cases (c :: cs) with ⟨hnil, -⟩ | ⟨c, rest, -, heq, hfill⟩ |
      ⟨rest, d, more, heq, hd, -, hfill⟩
    · cases hnil
    · cases heq
      cases hpc : p c with
      | true =>
        rw [hfill, List.takeWhile_cons_of_pos hpc, List.takeWhile_cons_of_pos hpc,
          List.dropWhile_cons_of_pos hpc, List.dropWhile_cons_of_pos hpc, ih.1, ih.2]
        exact ⟨rfl, rfl⟩
      | false =>
        rw [hfill]
        simp [hpc, hfill]
    · cases heq
      have hhole := hp _ F.shown
      have hfirst := hp d hd
      simp [hhole, hfirst, hfill]

theorem trimStart_fill (cs : List Char) : trimStart (F.fill cs) = F.fill (trimStart cs) :=
  (span_fill (fun _ hc => (isPlain_cases hc).2.2.2.2) cs).2

theorem trimEnd_fill (cs : List Char) : trimEnd (F.fill cs) = F.fill (trimEnd cs) := by
  have hdrop := (span_fill (F := F.reverse) (fun _ hc => (isPlain_cases hc).2.2.2.2) cs.reverse).2
  have hback := F.fill_reverse (trimEnd cs)
  rw [trimEnd, List.reverse_reverse] at hback
  rw [trimEnd, fill_reverse, hdrop, ← hback, List.reverse_reverse, trimEnd]

/-- No noun has spaces at its ends, so what is trimmed is trimmed around it. -/
theorem trim_fill (cs : List Char) : trim (F.fill cs) = F.fill (trim cs) := by
  rw [trim, trim, trimStart_fill, trimEnd_fill]

/-- A noun is not blank. -/
theorem isBlank_fill (cs : List Char) : isBlank (F.fill cs) = isBlank cs := by
  have hiff (ds : List Char) : isBlank ds = true ↔ trimStart ds = [] := by
    rw [isBlank, List.all_eq_true, trimStart, List.dropWhile_eq_nil_iff]
  rw [Bool.eq_iff_iff, hiff, hiff, trimStart_fill, fill_eq_nil_iff]

/-! ### Parts of texts -/

/-- A text is filled in two parts wherever it is cut. -/
theorem fill_split (F : Filling) (cs : List Char) (n : Nat) :
    F.fill cs = F.fill (cs.take n) ++ F.fill (cs.drop n) := by
  rw [← fill_append, List.take_append_drop]

theorem take_fill (cs : List Char) (n : Nat) :
    (F.fill cs).take (F.fill (cs.take n)).length = F.fill (cs.take n) := by
  rw [F.fill_split cs n, List.take_left]

theorem drop_fill (cs : List Char) (n : Nat) :
    (F.fill cs).drop (F.fill (cs.take n)).length = F.fill (cs.drop n) := by
  rw [F.fill_split cs n, List.drop_left]

/-! ### Bare holes -/

variable (F) in
/-- Whether no backslash stands directly in front of the hole, where it would escape the first
character of the noun. -/
def Bare (cs : List Char) : Prop :=
  ¬ ['\\', F.hole] <:+: cs

namespace Bare

theorem nil : F.Bare [] := by
  simp [Bare]

/-- A part of a text without escaped holes has none. -/
theorem of_isInfix (h : F.Bare cs) (hds : ds <:+: cs) : F.Bare ds :=
  fun hhole => h (hhole.trans hds)

theorem tail (h : F.Bare (c :: cs)) : F.Bare cs :=
  h.of_isInfix (List.suffix_cons c cs).isInfix

theorem take (h : F.Bare cs) (n : Nat) : F.Bare (cs.take n) :=
  h.of_isInfix (List.take_prefix n cs).isInfix

theorem drop (h : F.Bare cs) (n : Nat) : F.Bare (cs.drop n) :=
  h.of_isInfix (List.drop_suffix n cs).isInfix

theorem trim (h : F.Bare cs) : F.Bare (Text.trim cs) :=
  h.of_isInfix ((prefix_trimEnd _).isInfix.trans (List.dropWhile_suffix isSpace).isInfix)

theorem left (h : F.Bare (cs ++ ds)) : F.Bare cs :=
  h.of_isInfix (List.prefix_append cs ds).isInfix

theorem right (h : F.Bare (cs ++ ds)) : F.Bare ds :=
  h.of_isInfix (List.suffix_append cs ds).isInfix

theorem escape (h : F.Bare ('\\' :: c :: cs)) : c ≠ F.hole := by
  rintro rfl
  exact h (List.prefix_append _ cs).isInfix

theorem trimStart (h : F.Bare cs) : F.Bare (Text.trimStart cs) :=
  h.of_isInfix (List.dropWhile_suffix isSpace).isInfix

/-- A backslash may be put in front where the hole is not the first character. -/
theorem cons_of_head? (h : F.Bare cs) (hc : c = '\\' → cs.head? ≠ some F.hole) :
    F.Bare (c :: cs) := by
  intro hhole
  rcases List.infix_cons_iff.mp hhole with hstarts | hhole
  · obtain ⟨hescape, more, rfl⟩ := List.cons_prefix_cons.mp hstarts
    exact hc hescape.symm rfl
  · exact h hhole

/-- Any other character may be put in front of everything. -/
theorem cons (h : F.Bare cs) (hc : c ≠ '\\') : F.Bare (c :: cs) :=
  h.cons_of_head? fun hescape => absurd hescape hc

/-- Behind a text there may be any characters but the hole. -/
theorem append (h : F.Bare cs) (hds : F.hole ∉ ds) : F.Bare (cs ++ ds) := by
  induction ds using List.reverseRec with
  | nil => rwa [List.append_nil]
  | append_singleton ds d ih =>
    rw [List.mem_append, not_or] at hds
    rw [← List.append_assoc]
    intro hhole
    rcases List.infix_concat_iff.mp hhole with ⟨front, heq⟩ | hhole
    · refine hds.2 (List.mem_singleton.mpr ?_)
      simpa using congrArg List.getLast? heq
    · exact ih hds.1 hhole

/-- Two texts that share a character may be put together at it. -/
theorem overlap (h : F.Bare (cs ++ [c])) (h' : F.Bare (c :: ds)) : F.Bare (cs ++ c :: ds) := by
  induction cs with
  | nil => exact h'
  | cons d cs ih =>
    intro hhole
    rcases List.infix_cons_iff.mp hhole with hstarts | hhole
    · refine h (List.IsPrefix.isInfix ?_)
      obtain ⟨hd, hhead⟩ := List.cons_prefix_cons.mp hstarts
      refine List.cons_prefix_cons.mpr ⟨hd, ?_⟩
      cases cs with
      | nil => simpa using hhead
      | cons e cs => simpa using hhead
    · exact ih h.tail hhole

/-- Two texts with a character between them that is neither a backslash nor the hole. -/
theorem around (h : F.Bare cs) (h' : F.Bare ds) (hc : c ≠ '\\') (hhole : c ≠ F.hole) :
    F.Bare (cs ++ c :: ds) :=
  (h.append (by simpa using hhole.symm)).overlap (h'.cons hc)

end Bare

/-! ### Searches -/

theorem noun_masked (F : Filling) : Masked (fun c => isPlain c = true ∨ c = ' ') F.noun :=
  F.plain.masked

theorem escaped_ne_hole (hc : c ≠ F.hole) : escaped c ≠ F.hole := by
  rw [escaped]
  split
  · exact ne_hole rfl
  · exact hc

/-- Unescaping goes around the holes, as none of them is escaped. -/
theorem unescape_fill (h : F.Bare cs) : unescape (F.fill cs) = F.fill (unescape cs) := by
  induction cs using escape_induction with
  | nil => rfl
  | lone =>
    have hlone : F.fill ['\\'] = ['\\'] := fill_mark rfl []
    rw [hlone]
    exact hlone.symm
  | escape c cs ih =>
    rw [fill_mark rfl, fill_char h.escape, Text.unescape, Text.unescape,
      fill_char (escaped_ne_hole h.escape), ih h.tail.tail]
  | char c cs hc ih =>
    rw [unescape_char hc]
    by_cases hhole : c = F.hole
    · rw [hhole, fill_hole, fill_hole, F.noun_masked.unescape_append, F.plain.unescape, ih h.tail]
    · rw [fill_char hhole, fill_char hhole, unescape_char hc, ih h.tail]

/-- A place behind a front, with the noun in the hole. -/
theorem map_behind {front : List Char} {k : Nat} (hfront : (F.fill front).length = k)
    (cs : List Char) (place : Option Nat) :
    (place.map fun n => (F.fill (cs.take n)).length).map (· + k) =
      (place.map (· + front.length)).map fun n => (F.fill ((front ++ cs).take n)).length := by
  cases place with
  | none => rfl
  | some n =>
    rw [Option.map_some, Option.map_some, Option.map_some, Option.map_some, Nat.add_comm n,
      List.take_length_add_append, fill_append, List.length_append, hfront, Nat.add_comm]

/-- An escape stays, unless it is one of the hole. -/
theorem fill_escape (hc : c ≠ F.hole) (cs : List Char) :
    F.fill ('\\' :: c :: cs) = '\\' :: c :: F.fill cs := by
  rw [fill_mark rfl, fill_char hc]

theorem length_fill_escape (hc : c ≠ F.hole) : (F.fill ['\\', c]).length = 2 :=
  congrArg List.length (fill_escape hc [])

theorem length_fill_char (hc : c ≠ F.hole) : (F.fill [c]).length = 1 :=
  congrArg List.length (fill_char hc [])

theorem length_fill_hole : (F.fill [F.hole]).length = F.noun.length := by
  rw [fill_hole, fill_nil, List.append_nil]

/-- A search that looks at marks only passes over a noun. -/
theorem not_startsWithOneOf {set : List Char} (hset : ∀ c ∈ set, isPlain c = false ∧ c ≠ ' ')
    (c : Char) (hc : isPlain c = true ∨ c = ' ') (rest : List Char) :
    startsWithOneOf set (c :: rest) = false := by
  rw [startsWithOneOf, List.any_eq_false]
  intro d hd heq
  obtain ⟨hd, hspace⟩ := hset d hd
  rw [Bool.and_eq_true, beq_iff_eq] at heq
  rcases hc with hc | hc
  · exact Stroke.ne_of_isPlain hc hd heq.2
  · exact hspace (heq.2.symm.trans hc)

/-- A search that looks at marks only comes to the same place. -/
theorem find_fill {set : List Char} (hset : ∀ c ∈ set, isPlain c = false ∧ c ≠ ' ')
    (h : F.Bare cs) : find (startsWithOneOf set) (F.fill cs) =
      (find (startsWithOneOf set) cs).map fun n => (F.fill (cs.take n)).length := by
  induction cs using escape_induction with
  | nil => rw [fill_nil, find_nil]; rfl
  | lone => rw [fill_mark rfl, fill_nil, find_lone_escape]; rfl
  | escape c cs ih =>
    rw [fill_escape h.escape, find_escape, find_escape, ih h.tail.tail]
    exact map_behind (length_fill_escape h.escape) cs _
  | char c cs hc ih =>
    by_cases hhole : c = F.hole
    · subst hhole
      rw [fill_hole, F.noun_masked.find (not_startsWithOneOf hset), find_char hc,
        not_startsWithOneOf hset _ (.inl F.shown), if_neg Bool.false_ne_true, ih h.tail]
      exact map_behind length_fill_hole cs _
    · have hsame (rest : List Char) :
          startsWithOneOf set (c :: rest) = set.any fun d => d.toNat < 0x80 && c == d := rfl
      rw [fill_char hhole, find_char hc, find_char hc, hsame, hsame, ih h.tail]
      split
      · rfl
      · exact map_behind (length_fill_char hhole) cs _

section Pairs

variable {opening closing : Char}

/-- What closes a pair stays where it is. -/
theorem findClose_fill (hopening : isPlain opening = false ∧ opening ≠ ' ')
    (hclosing : isPlain closing = false ∧ closing ≠ ' ') (h : F.Bare cs) (depth : Nat) :
    findClose opening closing depth (F.fill cs) =
      (findClose opening closing depth cs).map fun n => (F.fill (cs.take n)).length := by
  have hmark {d : Char} (hd : isPlain d = false ∧ d ≠ ' ') : ¬ (isPlain d = true ∨ d = ' ') :=
    not_or.mpr ⟨by rw [hd.1]; exact Bool.false_ne_true, hd.2⟩
  induction cs using escape_induction generalizing depth with
  | nil =>
    have hnil : findClose opening closing depth ([] : List Char) = none := by rw [findClose]
    rw [fill_nil, hnil]
    rfl
  | lone => rw [fill_mark rfl, fill_nil, findClose_lone_escape]; rfl
  | escape c cs ih =>
    rw [fill_escape h.escape, findClose_escape, findClose_escape, ih h.tail.tail]
    exact map_behind (length_fill_escape h.escape) cs _
  | char c cs hc ih =>
    by_cases hhole : c = F.hole
    · subst hhole
      rw [fill_hole, F.noun_masked.findClose _ _ (hmark hopening) (hmark hclosing),
        findClose_char hc (ne_hole hopening.1).symm (ne_hole hclosing.1).symm, ih h.tail]
      exact map_behind length_fill_hole cs _
    · rw [fill_char hhole]
      rcases findClose_step opening closing hc depth with
        ⟨-, hclosed⟩ | ⟨depth', hbehind⟩
      · rw [hclosed, hclosed, Option.map_some, List.take_succ_cons, fill_char hhole]
        rfl
      · rw [hbehind, hbehind, ih h.tail]
        exact map_behind (length_fill_char hhole) cs _

variable (opening closing) in
/-- A pair is closed in both texts or in none. What stands in it stays in it, and what stands behind
it stays there. -/
theorem findClose_cases (hopening : isPlain opening = false ∧ opening ≠ ' ')
    (hclosing : isPlain closing = false ∧ closing ≠ ' ') (h : F.Bare cs) (depth : Nat) :
    (findClose opening closing depth cs = none ∧
      findClose opening closing depth (F.fill cs) = none) ∨
    ∃ inside behind, cs = inside ++ closing :: behind ∧
      F.fill cs = F.fill inside ++ closing :: F.fill behind ∧
      findClose opening closing depth cs = some (inside.length + 1) ∧
      findClose opening closing depth (F.fill cs) = some ((F.fill inside).length + 1) := by
  rw [findClose_fill hopening hclosing h]
  cases hclose : findClose opening closing depth cs with
  | none => exact .inl ⟨rfl, rfl⟩
  | some n =>
    obtain ⟨inside, behind, rfl, rfl⟩ := findClose_split hclose
    have htake : (inside ++ closing :: behind).take (inside.length + 1) = inside ++ [closing] :=
      List.take_length_add_append 1
    refine .inr ⟨inside, behind, rfl, by rw [fill_append, fill_mark hclosing.1], rfl, ?_⟩
    rw [Option.map_some, htake, fill_append, fill_mark hclosing.1, List.length_append]
    rfl

end Pairs

/-! ### Pieces -/

section Pieces

variable {isSeparator : Char → Bool}

theorem splitTopLevel_char (hc : c ≠ '\\') (depth : Nat) (cs : List Char) :
    splitTopLevel isSeparator depth (c :: cs) =
      if c = '(' then (splitTopLevel isSeparator (depth + 1) cs).prepend [c]
      else if c = ')' then (splitTopLevel isSeparator (depth - 1) cs).prepend [c]
      else if depth = 0 ∧ isSeparator c then
        ⟨[], (c, (splitTopLevel isSeparator 0 cs).head) :: (splitTopLevel isSeparator 0 cs).tail⟩
      else (splitTopLevel isSeparator depth cs).prepend [c] := by
  rw [splitTopLevel]
  all_goals
    intros
    subst_vars
    exact absurd rfl hc

/-- Do something to each piece. -/
def mapPieces (f : List Char → List Char) (p : Pieces) : Pieces :=
  ⟨f p.head, p.tail.map fun (sep, piece) => (sep, f piece)⟩

/-- What is put in front of the first piece is filled with it. -/
theorem mapPieces_prepend (front : List Char) (p : Pieces) :
    mapPieces F.fill (p.prepend front) = (mapPieces F.fill p).prepend (F.fill front) := by
  rw [mapPieces, Pieces.prepend, fill_append]
  rfl

/-- A noun is in one piece. -/
theorem splitTopLevel_noun (hseparator : ∀ c, isSeparator c = true → isPlain c = false ∧ c ≠ ' ')
    {noun : List Char} (h : ∀ c ∈ noun, isPlain c = true ∨ c = ' ') (depth : Nat)
    (cs : List Char) : splitTopLevel isSeparator depth (noun ++ cs) =
      (splitTopLevel isSeparator depth cs).prepend noun := by
  induction noun with
  | nil => rfl
  | cons c noun ih =>
    have hne {d : Char} (hd : isPlain d = false ∧ d ≠ ' ') : c ≠ d := by
      rcases h c List.mem_cons_self with hc | rfl
      · exact Stroke.ne_of_isPlain hc hd.1
      · exact hd.2.symm
    rw [List.cons_append, splitTopLevel_char (hne (by decide)), if_neg (hne (by decide)),
      if_neg (hne (by decide)), if_neg fun hcut => hne (hseparator c hcut.2) rfl,
      ih fun d hd => h d (List.mem_cons_of_mem c hd)]
    rfl

/-- A text is cut at the same separators. -/
theorem splitTopLevel_fill (hseparator : ∀ c, isSeparator c = true → isPlain c = false ∧ c ≠ ' ')
    (h : F.Bare cs) (depth : Nat) : splitTopLevel isSeparator depth (F.fill cs) =
      mapPieces F.fill (splitTopLevel isSeparator depth cs) := by
  induction cs using escape_induction generalizing depth with
  | nil => rfl
  | lone =>
    have hlone : F.fill ['\\'] = ['\\'] := fill_mark rfl []
    rw [hlone, splitTopLevel, mapPieces, hlone]
    rfl
  | escape c cs ih =>
    rw [fill_escape h.escape, splitTopLevel, splitTopLevel, ih h.tail.tail, mapPieces_prepend,
      fill_escape h.escape, fill_nil]
  | char c cs hc ih =>
    by_cases hhole : c = F.hole
    · have hone (p : Pieces) : (mapPieces F.fill p).prepend F.noun =
          mapPieces F.fill (p.prepend [c]) := by
        rw [mapPieces_prepend, hhole, fill_hole, fill_nil, List.append_nil]
      have hpiece := splitTopLevel_noun hseparator
        (fun d hd => .inl (List.mem_singleton.mp hd ▸ F.shown) : ∀ d ∈ [F.hole], _) depth cs
      rw [← hhole] at hpiece
      rw [← List.singleton_append, hpiece, ← hone, ← ih h.tail, List.singleton_append, hhole,
        fill_hole, splitTopLevel_noun hseparator fun d => F.plain.mem]
    · have hone (p : Pieces) : (mapPieces F.fill p).prepend [c] =
          mapPieces F.fill (p.prepend [c]) := by
        rw [mapPieces_prepend, fill_char hhole, fill_nil]
      rw [fill_char hhole, splitTopLevel_char hc, splitTopLevel_char hc]
      split_ifs
      · rw [ih h.tail, hone]
      · rw [ih h.tail, hone]
      · rw [ih h.tail]
        rfl
      · rw [ih h.tail, hone]

end Pieces

end Filling

end Gamebook
