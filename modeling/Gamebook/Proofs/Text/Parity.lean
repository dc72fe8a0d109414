import Gamebook.Proofs.Text.Cleaning
import Mathlib.Algebra.Group.Nat.Even
import Mathlib.Data.List.Induction

/-!
# Escapes seen from behind

A search reads a text from the front, from one character that is not escaped to the next, so what it
makes of a character depends on all that stands before it. It can be told from behind all the same:
a text ends in the middle of an escape exactly if the number of backslashes at its end is odd
(`masked_iff_even`), and a character behind it is passed over exactly in that case
(`comesTo_iff_even`).
-/

namespace Gamebook.Text

/-- The number of backslashes at the end of a text. -/
def backslashes (cs : List Char) : Nat :=
  (cs.reverse.takeWhile (· == '\\')).length

/-- Whether a search comes to a place of a text: whether one that looks for just this place finds
it. It does not if an escape takes the place, and it never stops at the backslash of an escape. -/
def comesTo (cs : List Char) (place : Nat) : Bool :=
  find (fun us => us.length + place == cs.length) cs == some place

/-! ### Backslashes at the end -/

theorem Masked.escape_iff (c : Char) (cs : List Char) :
    Masked (fun _ => True) ('\\' :: c :: cs) ↔ Masked (fun _ => True) cs :=
  ⟨Masked.of_escape, .escape c⟩

theorem Masked.char_iff {c : Char} (hc : c ≠ '\\') (cs : List Char) :
    Masked (fun _ => True) (c :: cs) ↔ Masked (fun _ => True) cs :=
  ⟨fun h => (h.of_char hc).2, .char hc trivial⟩

/-- One more character ends the row of backslashes, or is one more of them. -/
theorem backslashes_concat (cs : List Char) (c : Char) :
    backslashes (cs ++ [c]) = if c = '\\' then backslashes cs + 1 else 0 := by
  rw [backslashes, List.reverse_concat, List.takeWhile_cons]
  by_cases hc : c = '\\'
  · simp [hc, backslashes]
  · simp [hc]

/-- One more backslash opens an escape, or is taken by the one that is open. -/
theorem masked_concat_backslash (cs : List Char) :
    Masked (fun _ => True) (cs ++ ['\\']) ↔ ¬ Masked (fun _ => True) cs := by
  induction cs using escape_induction with
  | nil => exact iff_of_false Masked.not_lone fun h => h .nil
  | lone => exact iff_of_true (.escape '\\' .nil) Masked.not_lone
  | escape d cs ih =>
    exact (Masked.escape_iff d _).trans (ih.trans (not_congr (Masked.escape_iff d cs).symm))
  | char d cs hd ih =>
    exact (Masked.char_iff hd _).trans (ih.trans (not_congr (Masked.char_iff hd cs).symm))

/-- No escape is open at the end of a text if the number of backslashes there is even. -/
theorem masked_iff_even (cs : List Char) :
    Masked (fun _ => True) cs ↔ Even (backslashes cs) := by
  induction cs using List.reverseRec with
  | nil => exact iff_of_true .nil ⟨0, rfl⟩
  | append_singleton cs c ih =>
    rw [backslashes_concat]
    by_cases hc : c = '\\'
    · rw [if_pos hc, hc, masked_concat_backslash, ih, Nat.even_add_one]
    · rw [if_neg hc]
      exact iff_of_true (masked_concat hc cs) ⟨0, rfl⟩

/-- An escape in front of a text changes nothing about the parity, even if the text is all
backslashes. -/
theorem even_backslashes_escape (c : Char) (cs : List Char) :
    Even (backslashes ('\\' :: c :: cs)) ↔ Even (backslashes cs) := by
  rw [← masked_iff_even, ← masked_iff_even, Masked.escape_iff]

/-- No more does a character that escapes nothing. -/
theorem even_backslashes_char {c : Char} (hc : c ≠ '\\') (cs : List Char) :
    Even (backslashes (c :: cs)) ↔ Even (backslashes cs) := by
  rw [← masked_iff_even, ← masked_iff_even, Masked.char_iff hc]

/-! ### Places that a search comes to -/

/-- A search for what stands nowhere finds nothing. -/
theorem find_eq_none {hit : List Char → Bool} {cs : List Char}
    (h : ∀ us, us <:+ cs → hit us = false) : find hit cs = none := by
  induction cs using escape_induction with
  | nil => exact find_nil
  | lone => exact find_lone_escape
  | escape c cs ih =>
    have hsuffix : cs <:+ '\\' :: c :: cs := ⟨['\\', c], rfl⟩
    rw [find_escape, ih fun us hus => h us (hus.trans hsuffix)]
    rfl
  | char c cs hc ih =>
    rw [find_char hc, h _ (List.suffix_refl _), if_neg Bool.false_ne_true,
      ih fun us hus => h us (hus.trans (List.suffix_cons c cs))]
    rfl

/-- A search comes to a place if no escape is open in front of it. -/
theorem comesTo_iff_masked {c : Char} (hc : c ≠ '\\') (front rest : List Char) :
    comesTo (front ++ c :: rest) front.length = true ↔ Masked (fun _ => True) front := by
  -- seen from the end of the text the place is the same behind each part in front of it
  have hhit : (fun us : List Char => us.length + front.length == (front ++ c :: rest).length) =
      fun us => us.length == rest.length + 1 := by
    funext us
    rw [List.length_append, List.length_cons, Nat.add_comm front.length, Bool.eq_iff_iff,
      beq_iff_eq, beq_iff_eq, Nat.add_right_cancel_iff]
  rw [comesTo, hhit, beq_iff_eq]
  clear hhit
  induction front using escape_induction with
  | nil =>
    rw [List.nil_append, find_char hc]
    simp [Masked.nil]
  | lone =>
    -- the place is taken, and what stands behind it is too short
    have hnone : find (fun us => us.length == rest.length + 1) rest = none :=
      find_eq_none fun us hus => by simpa using Nat.ne_of_lt (Nat.lt_succ_of_le hus.length_le)
    rw [List.singleton_append, find_escape, hnone]
    exact iff_of_false (fun h => by cases h) Masked.not_lone
  | escape d front ih =>
    have hmap {found : Option Nat} :
        found.map (· + 2) = some ('\\' :: d :: front).length ↔ found = some front.length := by
      cases found <;> simp
    rw [List.cons_append, List.cons_append, find_escape]
    exact hmap.trans (ih.trans (Masked.escape_iff d front).symm)
  | char d front hd ih =>
    have hmap {found : Option Nat} :
        found.map (· + 1) = some (d :: front).length ↔ found = some front.length := by
      cases found <;> simp
    have hlonger : ((d :: (front ++ c :: rest)).length == rest.length + 1) = false := by
      rw [beq_eq_false_iff_ne, List.length_cons, List.length_append, List.length_cons]
      omega
    rw [List.cons_append, find_char hd, hlonger, if_neg Bool.false_ne_true]
    exact hmap.trans (ih.trans (Masked.char_iff hd front).symm)

/-- A search comes to a place if the number of backslashes directly in front of it is even. -/
theorem comesTo_iff_even {c : Char} (hc : c ≠ '\\') (front rest : List Char) :
    comesTo (front ++ c :: rest) front.length = true ↔ Even (backslashes front) :=
  (comesTo_iff_masked hc front rest).trans (masked_iff_even front)

end Gamebook.Text
