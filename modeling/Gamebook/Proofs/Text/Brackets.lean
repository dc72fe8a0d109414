import Gamebook.Text.Scan

/-!
# Brackets around pieces of text

A run between two statements holds no opening bracket, except behind a backslash. Such a text is
*unopened*. The search for what closes a bracket in front of it therefore never gets deeper, and
never has to look behind the bracket that is put at its end: either that one closes it, or one that
an author left in the piece does so earlier. What stands behind the piece makes no difference.

Every search goes from one character that is not escaped to the next (`escape_induction`), and one
that comes to an end is followed back from there (`find_induction`, `findClose_induction`).
-/

namespace Gamebook.Text

/-! ### Unopened texts -/

/-- A text with no opening bracket outside of escapes, whose escapes are complete. -/
inductive Unopened : List Char → Prop
  /-- The empty text. -/
  | nil : Unopened []
  /-- An escaped character in front. -/
  | escape (c : Char) {cs : List Char} : Unopened cs → Unopened ('\\' :: c :: cs)
  /-- Any other character in front. -/
  | char {c : Char} {cs : List Char} :
      c ≠ '\\' → c ≠ '[' → Unopened cs → Unopened (c :: cs)

/-- No bracket opens at the head of an unopened text with a closing one behind it. -/
theorem Unopened.head?_ne {cs : List Char} (h : Unopened cs) (behind : List Char) :
    (cs ++ ']' :: behind).head? ≠ some '[' := by
  cases h with
  | nil => simp
  | escape c _ => simp
  | char _ hc _ => simpa using hc

/-! ### Searches, character by character -/

/-- Every text is read from one character that is not escaped to the next. -/
@[elab_as_elim]
theorem escape_induction {P : List Char → Prop} (nil : P []) (lone : P ['\\'])
    (escape : ∀ c cs, P cs → P ('\\' :: c :: cs))
    (char : ∀ c cs, c ≠ '\\' → P cs → P (c :: cs)) (cs : List Char) : P cs :=
  match cs with
  | [] => nil
  | c :: cs => by
    by_cases hc : c = '\\'
    · subst hc
      match cs with
      | [] => exact lone
      | d :: ds => exact escape d ds (escape_induction nil lone escape char ds)
    · exact char c cs hc (escape_induction nil lone escape char cs)

section Find

variable {hit : List Char → Bool} {opening closing : Char}

/-- A search never looks at an escaped character. -/
theorem find_escape (c : Char) (cs : List Char) :
    find hit ('\\' :: c :: cs) = (find hit cs).map (· + 2) := by
  rw [find]
  rfl

theorem find_nil : find hit [] = none := by
  rw [find]

theorem find_lone_escape : find hit ['\\'] = none := by
  rw [find]
  exact congrArg (Option.map _) find_nil

/-- At any other place it looks at all that is behind. -/
theorem find_char {c : Char} (hc : c ≠ '\\') (cs : List Char) :
    find hit (c :: cs) = if hit (c :: cs) then some 0 else (find hit cs).map (· + 1) := by
  have hescape : isEscape c = false := by simpa [isEscape, Units.ofChar] using hc
  rw [find, hescape]
  rfl

/-- Induction along a search that finds something, back from the place where it stands. -/
@[elab_as_elim]
theorem find_induction {P : List Char → Nat → Prop} (found : ∀ cs, hit cs = true → P cs 0)
    (escape : ∀ c cs n, P cs n → P ('\\' :: c :: cs) (n + 2))
    (char : ∀ c cs n, c ≠ '\\' → hit (c :: cs) = false → P cs n → P (c :: cs) (n + 1))
    {cs : List Char} {n : Nat} (h : find hit cs = some n) : P cs n := by
  induction cs using escape_induction generalizing n with
  | nil =>
    rw [find_nil] at h
    cases h
  | lone =>
    rw [find_lone_escape] at h
    cases h
  | escape c cs ih =>
    rw [find_escape] at h
    obtain ⟨k, hk, rfl⟩ := Option.map_eq_some_iff.mp h
    exact escape c cs k (ih hk)
  | char c cs hc ih =>
    rw [find_char hc] at h
    split at h
    next hhit =>
      cases h
      exact found (c :: cs) hhit
    next hmiss =>
      obtain ⟨k, hk, rfl⟩ := Option.map_eq_some_iff.mp h
      exact char c cs k hc (Bool.eq_false_iff.mpr hmiss) (ih hk)

/-- Nothing is opened or closed by an escaped character. -/
theorem findClose_escape (depth : Nat) (c : Char) (cs : List Char) :
    findClose opening closing depth ('\\' :: c :: cs) =
      (findClose opening closing depth cs).map (· + 2) := by
  rw [findClose.eq_def]
  rfl

/-- The closing character at depth 0 is the one that is searched for. -/
theorem findClose_closing (hclosing : closing ≠ '\\') (cs : List Char) :
    findClose opening closing 0 (closing :: cs) = some 1 := by
  have hescape : isEscape closing = false := by simpa [isEscape, Units.ofChar] using hclosing
  rw [findClose.eq_def]
  dsimp only
  rw [hescape, if_neg Bool.false_ne_true, if_pos (by simp)]

/-- At a greater depth it closes a pair inside. -/
theorem findClose_closing_succ (hclosing : closing ≠ '\\') (depth : Nat) (cs : List Char) :
    findClose opening closing (depth + 1) (closing :: cs) =
      (findClose opening closing depth cs).map (· + 1) := by
  have hescape : isEscape closing = false := by simpa [isEscape, Units.ofChar] using hclosing
  rw [findClose.eq_def]
  dsimp only
  rw [hescape, if_neg Bool.false_ne_true, if_pos (by simp)]

/-- An opening character is one more to be closed, unless opening and closing are the same. -/
theorem findClose_opening (hopening : opening ≠ '\\') (hne : opening ≠ closing) (depth : Nat)
    (cs : List Char) : findClose opening closing depth (opening :: cs) =
      (findClose opening closing (depth + 1) cs).map (· + 1) := by
  have hescape : isEscape opening = false := by simpa [isEscape, Units.ofChar] using hopening
  rw [findClose.eq_def]
  dsimp only
  rw [hescape, if_neg Bool.false_ne_true, if_neg (by simpa using hne), if_pos (by simp)]

/-- All other characters are passed over. -/
theorem findClose_char {c : Char} (hc : c ≠ '\\') (hopen : c ≠ opening) (hclose : c ≠ closing)
    (depth : Nat) (cs : List Char) : findClose opening closing depth (c :: cs) =
      (findClose opening closing depth cs).map (· + 1) := by
  have hescape : isEscape c = false := by simpa [isEscape, Units.ofChar] using hc
  rw [findClose.eq_def]
  dsimp only
  rw [hescape, if_neg Bool.false_ne_true, if_neg (by simpa using hclose),
    if_neg (by simpa using hopen)]

theorem findClose_lone_escape (depth : Nat) : findClose opening closing depth ['\\'] = none := by
  have hnil : findClose opening closing depth ([] : List Char) = none := by rw [findClose]
  rw [findClose.eq_def]
  exact congrArg (Option.map _) hnil

/-- At a character that escapes nothing the last bracket is closed, or the search goes on behind it,
whatever stands there. -/
theorem findClose_step (opening closing : Char) {c : Char} (hc : c ≠ '\\') (depth : Nat) :
    (c = closing ∧ ∀ cs, findClose opening closing depth (c :: cs) = some 1) ∨
      ∃ depth', ∀ cs, findClose opening closing depth (c :: cs) =
        (findClose opening closing depth' cs).map (· + 1) := by
  by_cases hclose : c = closing
  · subst hclose
    cases depth with
    | zero => exact .inl ⟨rfl, fun cs => findClose_closing hc cs⟩
    | succ depth => exact .inr ⟨depth, findClose_closing_succ hc depth⟩
  · by_cases hopen : c = opening
    · subst hopen
      exact .inr ⟨depth + 1, findClose_opening hc hclose depth⟩
    · exact .inr ⟨depth, fun cs => findClose_char hc hopen hclose _ cs⟩

/-- Induction along a search that comes to an end, back from the character that it ends at. -/
@[elab_as_elim]
theorem findClose_induction {P : Nat → List Char → Nat → Prop}
    (closes : ∀ depth cs, closing ≠ '\\' →
      (∀ ds, findClose opening closing depth (closing :: ds) = some 1) → P depth (closing :: cs) 1)
    (escape : ∀ depth c cs n, P depth cs n → P depth ('\\' :: c :: cs) (n + 2))
    (char : ∀ depth depth' c cs n, c ≠ '\\' →
      (∀ ds, findClose opening closing depth (c :: ds) =
        (findClose opening closing depth' ds).map (· + 1)) →
      P depth' cs n → P depth (c :: cs) (n + 1))
    {depth : Nat} {cs : List Char} {n : Nat} (h : findClose opening closing depth cs = some n) :
    P depth cs n := by
  induction cs using escape_induction generalizing depth n with
  | nil =>
    rw [findClose] at h
    cases h
  | lone =>
    rw [findClose_lone_escape] at h
    cases h
  | escape c cs ih =>
    rw [findClose_escape] at h
    obtain ⟨k, hk, rfl⟩ := Option.map_eq_some_iff.mp h
    exact escape depth c cs k (ih hk)
  | char c cs hc ih =>
    rcases findClose_step opening closing hc depth with ⟨rfl, hclosed⟩ | ⟨depth', hbehind⟩
    · obtain rfl : 1 = n := Option.some.inj ((hclosed cs).symm.trans h)
      exact closes depth cs hc hclosed
    · rw [hbehind] at h
      obtain ⟨k, hk, rfl⟩ := Option.map_eq_some_iff.mp h
      exact char depth depth' c cs k hc hbehind (ih hk)

/-- The search for what closes a pair ends with the closing character. -/
theorem findClose_split {depth : Nat} {cs : List Char} {n : Nat}
    (h : findClose opening closing depth cs = some n) :
    ∃ inside behind, cs = inside ++ closing :: behind ∧ n = inside.length + 1 := by
  refine findClose_induction ?_ ?_ ?_ h
  · intro _ cs _ _
    exact ⟨[], cs, rfl, rfl⟩
  · rintro _ c _ _ ⟨inside, behind, rfl, rfl⟩
    exact ⟨'\\' :: c :: inside, behind, rfl, rfl⟩
  · rintro _ _ c _ _ _ _ ⟨inside, behind, rfl, rfl⟩
    exact ⟨c :: inside, behind, rfl, rfl⟩

end Find

/-! ### Pairs -/

namespace Marker

/-- A pair reaches up to what closes it. -/
theorem lengthAt?_paired (opening closing : Char) (rest : List Char) :
    (paired opening closing).lengthAt? (opening :: rest) =
      (Text.findClose opening closing 0 rest).map (· + 1) :=
  if_pos (by simp [Units.ofChar])

theorem lengthAt?_other {opening closing c : Char} (hc : c ≠ opening) (rest : List Char) :
    (paired opening closing).lengthAt? (c :: rest) = none :=
  if_neg (by simpa [Units.ofChar] using hc)

/-- A pair stands between its opening and its closing character. -/
theorem lengthAt?_split {opening closing : Char} {cs : List Char} {n : Nat}
    (h : (paired opening closing).lengthAt? cs = some n) :
    ∃ inside behind, cs = opening :: (inside ++ closing :: behind) ∧ n = inside.length + 2 := by
  rcases cs with _ | ⟨c, cs⟩
  · cases h
  by_cases hc : c = opening
  · subst hc
    rw [lengthAt?_paired] at h
    obtain ⟨k, hk, rfl⟩ := Option.map_eq_some_iff.mp h
    obtain ⟨inside, behind, rfl, rfl⟩ := findClose_split hk
    exact ⟨inside, behind, rfl, rfl⟩
  · rw [lengthAt?_other hc] at h
    cases h

end Marker

/-! ### Where runs are unopened -/

/-- The text in front of the first place that a search finds is unopened, if the search stops at
opening brackets. -/
theorem unopened_take_of_find {hit : List Char → Bool} (hhit : ∀ cs, hit ('[' :: cs) = true)
    {cs : List Char} {n : Nat} (h : find hit cs = some n) : Unopened (cs.take n) := by
  refine find_induction ?_ ?_ ?_ h
  · intro cs _
    exact .nil
  · intro c cs n ih
    exact .escape c ih
  · intro c cs n hc hmiss ih
    refine .char hc ?_ ih
    rintro rfl
    exact Bool.false_ne_true (hmiss.symm.trans (hhit cs))

/-! ### Pieces between separators -/

/-- A function that treats escapes in rules of their own leaves other characters to its last one. -/
theorem ne_escape_of_rules {c : Char} {rest : List Char} (hlone : c = '\\' → rest = [] → False)
    (hescape : ∀ d more, c = '\\' → rest = d :: more → False) : c ≠ '\\' := by
  intro hc
  cases rest with
  | nil => exact hlone hc rfl
  | cons d more => exact hescape d more hc rfl

/-- A kind of texts for which escapes and other characters are looked at one by one: the rest of
such a text is of the kind, and so is any other that is put in the place of the rest. -/
structure Stepwise (P : List Char → Prop) : Prop where
  nil : P []
  escape : ∀ {c : Char} {cs : List Char}, P ('\\' :: c :: cs) →
    P cs ∧ ∀ {ds : List Char}, P ds → P ('\\' :: c :: ds)
  char : ∀ {c : Char} {cs : List Char}, c ≠ '\\' → P (c :: cs) →
    P cs ∧ ∀ {ds : List Char}, P ds → P (c :: ds)

/-- The pieces of a text are of the kind of the text, and stand behind separators. -/
theorem Stepwise.splitTopLevel {P : List Char → Prop} (hP : Stepwise P) (isSeparator : Char → Bool)
    (depth : Nat) {cs : List Char} (h : P cs) :
    P (Text.splitTopLevel isSeparator depth cs).head ∧
      ∀ part ∈ (Text.splitTopLevel isSeparator depth cs).tail,
        isSeparator part.1 = true ∧ P part.2 := by
  fun_induction Text.splitTopLevel isSeparator depth cs with
  | case1 => exact ⟨hP.nil, by simp⟩
  | case2 => exact ⟨h, by simp⟩
  | case3 _ _ _ ih =>
    obtain ⟨hrest, hfront⟩ := hP.escape h
    exact ⟨hfront (ih hrest).1, (ih hrest).2⟩
  | case6 _ _ _ hlone hescape _ _ hseparator _ ih =>
    have hrest := (hP.char (ne_escape_of_rules hlone hescape) h).1
    refine ⟨hP.nil, fun part hpart => ?_⟩
    rcases List.mem_cons.mp hpart with rfl | hpart
    · exact ⟨hseparator.2, (ih hrest).1⟩
    · exact (ih hrest).2 part hpart
  | case4 _ _ hlone hescape ih | case5 _ _ hlone hescape _ ih
  | case7 _ _ _ hlone hescape _ _ _ ih =>
    -- the character goes in front of the first piece
    obtain ⟨hrest, hfront⟩ := hP.char (ne_escape_of_rules hlone hescape) h
    exact ⟨hfront (ih hrest).1, (ih hrest).2⟩

/-- The texts that open no bracket are such a kind. -/
theorem Unopened.stepwise : Stepwise Unopened where
  nil := .nil
  escape h := by
    cases h with
    | escape c h => exact ⟨h, .escape _⟩
    | char hc => exact absurd rfl hc
  char hc h := by
    cases h with
    | escape => exact absurd rfl hc
    | char _ hopen h => exact ⟨h, .char hc hopen⟩

/-! ### Where a bracket around an unopened piece closes -/

/-- The bracket behind an unopened piece closes the one in front of it, whatever follows, unless a
closing bracket in the piece itself does. -/
theorem Unopened.closes {piece : List Char} (h : Unopened piece) :
    (∀ more, findClose '[' ']' 0 (piece ++ ']' :: more) = some (piece.length + 1)) ∨
    ∃ front back, piece = front ++ ']' :: back ∧ Unopened back ∧
      ∀ more, findClose '[' ']' 0 (piece ++ ']' :: more) = some (front.length + 1) := by
  -- nothing opens in the piece, so the search stays at depth 0 all along
  induction h with
  | nil => exact .inl (findClose_closing (by decide))
  | escape c _ ih =>
    rcases ih with hall | ⟨front, back, rfl, hback, hall⟩
    · refine .inl fun more => ?_
      rw [List.cons_append, List.cons_append, findClose_escape, hall]
      rfl
    · refine .inr ⟨'\\' :: c :: front, back, rfl, hback, fun more => ?_⟩
      rw [List.cons_append, List.cons_append, findClose_escape, hall]
      rfl
  | @char c cs hc hopen hcs ih =>
    by_cases hclose : c = ']'
    · subst hclose
      exact .inr ⟨[], cs, rfl, hcs, fun more => findClose_closing (by decide) _⟩
    · rcases ih with hall | ⟨front, back, rfl, hback, hall⟩
      · refine .inl fun more => ?_
        rw [List.cons_append, findClose_char hc hopen hclose, hall]
        rfl
      · refine .inr ⟨c :: front, back, rfl, hback, fun more => ?_⟩
        rw [List.cons_append, findClose_char hc hopen hclose, hall]
        rfl

end Gamebook.Text
