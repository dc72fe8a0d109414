/-!
# Splitting texts

A text between separators falls into pieces, one more than there are separators.
-/

namespace Gamebook.Text

/-- The pieces of a text between separators. -/
def split (separator : Char) : List Char → List (List Char)
  | [] => [[]]
  | c :: rest =>
    if c = separator then [] :: split separator rest
    else match split separator rest with
      | [] => [[c]]
      | piece :: pieces => (c :: piece) :: pieces

/-- The pieces of a text between separators, as texts. -/
def pieces (separator : Char) (text : String) : List String :=
  (split separator text.toList).map String.ofList

/-! ### Small laws -/

theorem length_split (separator : Char) (cs : List Char) :
    (split separator cs).length = cs.count separator + 1 := by
  induction cs with
  | nil => rfl
  | cons c rest ih =>
    by_cases h : c = separator
    · simp [split, h, ih]
    · rw [split, if_neg h, List.count_cons_of_ne h]
      split
      next hs => simp [hs] at ih
      next hs => simpa [hs] using ih

/-- The pieces of a text, with the separators between them, make up the text. -/
theorem intercalate_split (separator : Char) (cs : List Char) :
    [separator].intercalate (split separator cs) = cs := by
  induction cs with
  | nil => rfl
  | cons c rest ih =>
    by_cases h : c = separator
    · rw [split, if_pos h, h]
      cases hs : split separator rest with
      | nil => simpa [hs] using length_split separator rest
      | cons p ps =>
        rw [hs] at ih
        simp [List.intercalate_cons_cons, ih]
    · rw [split, if_neg h]
      split
      next hs => simpa [hs] using length_split separator rest
      next p ps hs =>
        rw [hs] at ih
        cases ps with
        | nil => simpa using ih
        | cons q qs => simpa [List.intercalate_cons_cons] using ih

end Gamebook.Text
