import Gamebook.Proofs.Text.Brackets
import Gamebook.Text.Clean
import Gamebook.Text.Escape
import Mathlib.Data.List.TakeWhile

/-!
# Texts without escaped line feeds

Cleaning resolves the escape `\n`, and what is left of the escapes says nothing of line feeds:
`Text.feedless_clean`. This stays so however the text is cut up later, since each search goes from
one character that is not escaped to the next, and so never cuts an escape in two
(`Feedless.drop_find`, `Feedless.drop_findClose`).
-/

namespace Gamebook.Text

/-- A text without line breaks. -/
def Unbroken (cs : List Char) : Prop :=
  ∀ c ∈ cs, c ≠ '\n' ∧ c ≠ '\r'

/-- A text in which no escape stands for a line feed. It may end with a lone backslash. -/
inductive Feedless : List Char → Prop
  /-- The empty text. -/
  | nil : Feedless []
  /-- A backslash at the end. -/
  | lone : Feedless ['\\']
  /-- An escaped character in front. -/
  | escape {c : Char} {cs : List Char} : c ≠ 'n' → Feedless cs → Feedless ('\\' :: c :: cs)
  /-- Any other character in front. -/
  | char {c : Char} {cs : List Char} : c ≠ '\\' → Feedless cs → Feedless (c :: cs)

namespace Feedless

variable {cs ds : List Char} {c : Char}

/-! ### Parts -/

/-- Behind a character that escapes nothing the text goes on. -/
theorem tail (h : Feedless (c :: cs)) (hc : c ≠ '\\') : Feedless cs := by
  cases h with
  | lone => exact absurd rfl hc
  | escape => exact absurd rfl hc
  | char _ h => exact h

/-- Behind an escape the text goes on. -/
theorem tail_escape (h : Feedless ('\\' :: c :: cs)) : c ≠ 'n' ∧ Feedless cs := by
  cases h with
  | escape hc h => exact ⟨hc, h⟩
  | char hc => exact absurd rfl hc

theorem take (h : Feedless cs) (n : Nat) : Feedless (cs.take n) := by
  induction h generalizing n with
  | nil => rw [List.take_nil]; exact .nil
  | lone =>
    cases n with
    | zero => exact .nil
    | succ n => rw [List.take_succ_cons, List.take_nil]; exact .lone
  | escape hc _ ih =>
    match n with
    | 0 => exact .nil
    | 1 => exact .lone
    | n + 2 => exact .escape hc (ih n)
  | char hc _ ih =>
    cases n with
    | zero => exact .nil
    | succ n => exact .char hc (ih n)

theorem of_prefix (h : Feedless cs) (hds : ds <+: cs) : Feedless ds := by
  rw [List.prefix_iff_eq_take.mp hds]
  exact h.take _

/-- A text is put in front of a character that neither escapes nor stands for a line feed behind a
backslash. -/
theorem append_cons (h : Feedless cs) (hc : c ≠ '\\') (hn : c ≠ 'n') (hds : Feedless ds) :
    Feedless (cs ++ c :: ds) := by
  induction h with
  | nil => exact .char hc hds
  | lone => exact .escape hn hds
  | escape hd _ ih => exact .escape hd ih
  | char hd _ ih => exact .char hd ih

/-- Characters that are no backslashes are put in front of a text. -/
theorem prepend (hcs : ∀ c ∈ cs, c ≠ '\\') (h : Feedless ds) : Feedless (cs ++ ds) := by
  induction cs with
  | nil => exact h
  | cons c cs ih =>
    exact .char (hcs c List.mem_cons_self) (ih fun d hd => hcs d (List.mem_cons_of_mem c hd))

/-- Behind characters that are no backslashes the text goes on. -/
theorem behind (hcs : ∀ c ∈ cs, c ≠ '\\') (h : Feedless (cs ++ ds)) : Feedless ds := by
  induction cs with
  | nil => exact h
  | cons c cs ih =>
    exact ih (fun d hd => hcs d (List.mem_cons_of_mem c hd)) (h.tail (hcs c List.mem_cons_self))

/-! ### Searches -/

theorem drop_find {hit : List Char → Bool} (h : Feedless cs) {n : Nat} (hn : find hit cs = some n) :
    Feedless (cs.drop n) := by
  revert h
  refine find_induction ?_ ?_ ?_ hn
  · intro cs _ h
    exact h
  · intro c cs n ih h
    exact ih h.tail_escape.2
  · intro c cs n hc _ ih h
    exact ih (h.tail hc)

theorem drop_findClose {opening closing : Char} (h : Feedless cs) {depth n : Nat}
    (hn : findClose opening closing depth cs = some n) : Feedless (cs.drop n) := by
  revert h
  refine findClose_induction ?_ ?_ ?_ hn
  · intro _ cs hclosing _ h
    exact h.tail hclosing
  · intro _ c cs n ih h
    exact ih h.tail_escape.2
  · intro _ _ c cs n hc _ ih h
    exact ih (h.tail hc)

/-- The part inside of a pair, and the part behind it. -/
theorem pair {opening closing : Char} {cs : List Char} {n : Nat} (hopening : opening ≠ '\\')
    (h : Feedless cs) (hn : (Marker.paired opening closing).lengthAt? cs = some n) :
    Feedless ((cs.take (n - 1)).drop 1) ∧ Feedless (cs.drop n) := by
  cases cs with
  | nil => cases hn
  | cons c cs =>
    rw [Marker.lengthAt?] at hn
    split at hn
    next hc =>
      obtain rfl : c = opening := by simpa [Units.ofChar] using hc
      obtain ⟨k, hk, rfl⟩ := Option.map_eq_some_iff.mp hn
      have hinside := h.tail hopening
      refine ⟨?_, hinside.drop_findClose hk⟩
      rw [Nat.add_sub_cancel, List.drop_take]
      exact hinside.take _
    next => cases hn

theorem stepwise : Stepwise Feedless where
  nil := .nil
  escape h := ⟨h.tail_escape.2, .escape h.tail_escape.1⟩
  char hc h := ⟨h.tail hc, .char hc⟩

end Feedless

/-! ### Ends of texts -/

/-- A text that does not end in a carriage return. -/
abbrev NoReturn (s : String) : Prop :=
  s.toList.getLast? ≠ some '\r'

/-- Trimming leaves no white space at the end. -/
theorem not_isSpace_of_getLast?_trim {cs : List Char} {c : Char}
    (h : (trim cs).getLast? = some c) : isSpace c = false := by
  rw [trim, trimEnd, List.getLast?_reverse] at h
  have hnot := List.head?_dropWhile_not isSpace (trimStart cs).reverse
  rw [h] at hnot
  exact hnot

/-- Trimming leaves no carriage return at the end. -/
theorem getLast?_trim_ne_return (cs : List Char) : (trim cs).getLast? ≠ some '\r' := by
  intro h
  exact absurd (not_isSpace_of_getLast?_trim h) (by decide)

theorem mem_of_mem_trim {cs : List Char} {c : Char} (h : c ∈ trim cs) : c ∈ cs := by
  rw [trim, trimEnd, List.mem_reverse] at h
  have hend := (List.dropWhile_sublist _).subset h
  rw [List.mem_reverse] at hend
  exact (List.dropWhile_sublist _).subset hend

/-- An escape stands for a carriage return only if it ends in one. -/
theorem getLast?_of_unescape {cs : List Char} (h : (unescape cs).getLast? = some '\r') :
    cs.getLast? = some '\r' := by
  -- a character in front makes a difference only where nothing stands behind it
  have hcons : ∀ {c d : Char} {rest : List Char},
      ((unescape rest).getLast? = some '\r' → rest.getLast? = some '\r') →
      (d = '\r' → c = '\r') → (d :: unescape rest).getLast? = some '\r' →
        (c :: rest).getLast? = some '\r' := by
    intro c d rest ih hd h
    rw [List.getLast?_cons] at h ⊢
    cases hrest : rest with
    | nil =>
      rw [hrest] at h
      rw [hd (Option.some.inj h)]
      rfl
    | cons e es =>
      cases hlast : (unescape rest).getLast? with
      | none =>
        rw [hrest, List.getLast?_eq_none_iff] at hlast
        unfold unescape at hlast
        split at hlast <;> simp_all
      | some r =>
        rw [hlast] at h
        rw [← hrest, ih (hlast.trans h)]
        rfl
  fun_induction unescape cs with
  | case1 c rest ih =>
    have hescaped : escaped c = '\r' → c = '\r' := by
      intro hc
      rw [escaped] at hc
      split at hc
      · cases hc
      · exact hc
    rw [List.getLast?_cons_cons]
    exact hcons ih hescaped h
  | case2 c rest _ ih => exact hcons ih id h
  | case3 => exact h

/-- A name that is trimmed, and then freed of its escapes, does not end in a carriage return. -/
theorem noReturn_unescape_trim (cs : List Char) :
    NoReturn (String.ofList (unescape (trim cs))) := by
  rw [NoReturn, String.toList_ofList]
  exact fun hlast => getLast?_trim_ne_return cs (getLast?_of_unescape hlast)

/-! ### Cleaning -/

/-- A run of white space starts with any white space. -/
theorem isSpace_of_mem_run {c : Char} (hc : isSpace c = true) (rest : List Char) :
    ∀ d ∈ c :: rest.takeWhile isSpace, isSpace d = true :=
  List.forall_mem_cons.mpr ⟨hc, fun _ hd => List.mem_takeWhile_imp hd⟩

/-- It is the whole run: something that shows follows. -/
theorem isSpace_of_mem_head?_trimStart (cs : List Char) :
    ∀ d ∈ (trimStart cs).head?, isSpace d = false := by
  intro d hd
  have hnot := List.head?_dropWhile_not isSpace cs
  rw [← trimStart, Option.mem_def.mp hd] at hnot
  simpa using hnot

/-- What is left of a run of white space is white space. -/
theorem isSpace_of_mem_cleanRun {place : Place} {last : Option Char} {run rest : List Char}
    {c : Char} (hrun : ∀ d ∈ run, isSpace d) (h : c ∈ cleanRun place last run rest) :
    isSpace c := by
  rw [cleanRun] at h
  split at h
  · split at h
    · rw [List.mem_singleton.mp h]
      decide
    · exact hrun c h
  · split at h
    · cases h
    · rw [List.mem_singleton.mp h]
      decide

/-- Cleaning resolves all escapes of line feeds. -/
theorem feedless_cleanFrom (place : Place) (last : Option Char) (cs : List Char) :
    Feedless (cleanFrom place last cs) := by
  fun_induction cleanFrom place last cs with
  | case1 => exact .nil
  | case2 => exact .lone
  | case3 _ _ _ ih => exact .char (by decide) ih
  | case4 _ _ _ _ hn ih => exact .escape hn ih
  | case5 _ _ c rest _ _ _ hspace run behind kept ih =>
    have hrun := isSpace_of_mem_run hspace rest
    -- what is kept of a run of white space holds no backslash
    refine Feedless.prepend (fun d hd => ?_) ih
    rintro rfl
    exact absurd (isSpace_of_mem_cleanRun hrun hd) (by decide)
  | case6 _ _ _ _ _ _ _ _ _ ih => exact .char (by decide) ih
  | case7 _ _ c rest hend _ hescape _ _ ih =>
    exact .char (ne_escape_of_rules hend hescape) ih

theorem feedless_clean (cs : List Char) : Feedless (clean cs) :=
  feedless_cleanFrom .script none cs

end Gamebook.Text
