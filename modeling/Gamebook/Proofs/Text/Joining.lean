import Gamebook.Proofs.Text.Escaping
import Gamebook.Text.Split

/-!
# Texts put together

What is found in a text is found in it still when another one is put behind it. A search for what
closes a bracket comes to the same end, and one that came to none may come to one only in the text
behind (`findClose_append`). Lines are split off one by one (`split_append`).

Where the first text ends in the middle of an escape, the second one loses its first character to
it. A text that ends in a line feed does not (`masked_of_feed`).
-/

namespace Gamebook.Text

/-! ### Ends of texts -/

/-- No escape is left open behind a character that is no backslash, whatever stands in front. -/
theorem masked_concat {c : Char} (hc : c ≠ '\\') (cs : List Char) :
    Masked (fun _ => True) (cs ++ [c]) := by
  induction cs using escape_induction with
  | nil => exact .char hc trivial .nil
  | lone => exact .escape c .nil
  | escape d cs ih => exact .escape d ih
  | char d cs hd ih => exact .char hd trivial ih

/-- Behind a line feed, for one. -/
theorem masked_of_feed (cs : List Char) : Masked (fun _ => True) (cs ++ ['\n']) :=
  masked_concat (by decide) cs

/-- Put something in front of the first piece. -/
def ontoFirst {α : Type} (a : α) : List (List α) → List (List α)
  | [] => [[a]]
  | piece :: pieces => (a :: piece) :: pieces

/-! ### Lines -/

/-- A text without separators is its only piece. -/
theorem split_of_notMem {separator : Char} {cs : List Char} (h : separator ∉ cs) :
    split separator cs = [cs] := by
  have hlength := length_split separator cs
  rw [List.count_eq_zero.mpr h, Nat.zero_add] at hlength
  obtain ⟨piece, hpiece⟩ := List.length_eq_one_iff.mp hlength
  have hjoin := intercalate_split separator cs
  rw [hpiece] at hjoin ⊢
  rw [← hjoin]
  simp

/-- The pieces of two texts with a separator between them. -/
theorem split_append (separator : Char) (cs ds : List Char) :
    split separator (cs ++ separator :: ds) = split separator cs ++ split separator ds := by
  have hne : ∀ es : List Char, split separator es ≠ [] := fun es hnil => by
    simpa [hnil] using length_split separator es
  induction cs with
  | nil =>
    rw [List.nil_append, split.eq_def separator (separator :: ds)]
    exact if_pos rfl
  | cons c cs ih =>
    rw [List.cons_append, split, split, ih]
    split
    · rfl
    · obtain ⟨piece, pieces, hpieces⟩ := List.exists_cons_of_ne_nil (hne cs)
      rw [hpieces]
      rfl

/-- Two rows of pieces, with the separator between them. -/
theorem intercalate_append (separator : Char) {xs ys : List (List Char)} (hxs : xs ≠ [])
    (hys : ys ≠ []) : [separator].intercalate (xs ++ ys) =
      [separator].intercalate xs ++ separator :: [separator].intercalate ys := by
  induction xs with
  | nil => exact absurd rfl hxs
  | cons x xs ih =>
    cases xs with
    | nil =>
      obtain ⟨y, ys, rfl⟩ := List.exists_cons_of_ne_nil hys
      simp [List.intercalate_cons_cons]
    | cons x' xs =>
      rw [List.cons_append, List.cons_append, List.intercalate_cons_cons,
        List.intercalate_cons_cons, ← List.cons_append, ih (List.cons_ne_nil _ _)]
      simp

/-! ### Brackets -/

section Brackets

variable (opening closing : Char)

/-- A search that comes to an end comes to the same end whatever stands behind the text; one that
does not may come to an end only behind the text. -/
theorem findClose_append (cs ds : List Char) (depth : Nat) :
    (∃ n, findClose opening closing depth cs = some n ∧
        findClose opening closing depth (cs ++ ds) = some n) ∨
      (findClose opening closing depth cs = none ∧
        ∀ n, findClose opening closing depth (cs ++ ds) = some n → cs.length ≤ n) := by
  induction cs using escape_induction generalizing depth with
  | nil =>
    have hnil : findClose opening closing depth ([] : List Char) = none := by rw [findClose]
    exact .inr ⟨hnil, fun n _ => Nat.zero_le n⟩
  | lone =>
    -- the escape is not complete, and takes a character of the text behind
    refine .inr ⟨findClose_lone_escape depth, fun n hn => ?_⟩
    cases ds with
    | nil => cases (findClose_lone_escape depth).symm.trans hn
    | cons d ds =>
      rw [List.singleton_append, findClose_escape] at hn
      obtain ⟨k, -, rfl⟩ := Option.map_eq_some_iff.mp hn
      exact Nat.le_add_left 1 (k + 1)
  | escape c cs ih =>
    rw [List.cons_append, List.cons_append, findClose_escape, findClose_escape]
    rcases ih depth with ⟨n, hn, hmore⟩ | ⟨hnone, hmore⟩
    · exact .inl ⟨n + 2, by rw [hn]; rfl, by rw [hmore]; rfl⟩
    · refine .inr ⟨by rw [hnone]; rfl, fun n hn => ?_⟩
      obtain ⟨k, hk, rfl⟩ := Option.map_eq_some_iff.mp hn
      exact Nat.add_le_add_right (hmore k hk) 2
  | char c cs hc ih =>
    rw [List.cons_append]
    rcases findClose_step opening closing hc depth with ⟨-, hclosed⟩ | ⟨depth', hbehind⟩
    · exact .inl ⟨1, hclosed cs, hclosed (cs ++ ds)⟩
    · rw [hbehind, hbehind]
      rcases ih depth' with ⟨n, hn, hmore⟩ | ⟨hnone, hmore⟩
      · exact .inl ⟨n + 1, by rw [hn]; rfl, by rw [hmore]; rfl⟩
      · refine .inr ⟨by rw [hnone]; rfl, fun n hn => ?_⟩
        obtain ⟨k, hk, rfl⟩ := Option.map_eq_some_iff.mp hn
        exact Nat.add_le_add_right (hmore k hk) 1

/-- A search that comes to an end does not depend on what stands behind it. -/
theorem findClose_take {cs : List Char} {depth n : Nat}
    (h : findClose opening closing depth cs = some n) (ds : List Char) :
    findClose opening closing depth (cs.take n ++ ds) = some n := by
  refine findClose_induction ?_ ?_ ?_ h
  · intro depth cs _ hclosed
    exact hclosed (cs.take 0 ++ ds)
  · intro depth c cs n ih
    rw [List.take_succ_cons, List.take_succ_cons, List.cons_append, List.cons_append,
      findClose_escape, ih]
    rfl
  · intro depth depth' c cs n _ hbehind ih
    rw [List.take_succ_cons, List.cons_append, hbehind, ih]
    rfl

/-- A pair with which a text begins is closed at the same place, or behind the text. -/
theorem Marker.lengthAt?_append {cs : List Char} (hne : cs ≠ []) (ds : List Char) :
    (∃ n, (Marker.paired opening closing).lengthAt? cs = some n ∧
        (Marker.paired opening closing).lengthAt? (cs ++ ds) = some n) ∨
      ((Marker.paired opening closing).lengthAt? cs = none ∧
        ∀ n, (Marker.paired opening closing).lengthAt? (cs ++ ds) = some n → cs.length ≤ n) := by
  obtain ⟨c, cs, rfl⟩ := List.exists_cons_of_ne_nil hne
  by_cases hc : c = opening
  · subst hc
    rw [List.cons_append, lengthAt?_paired, lengthAt?_paired]
    rcases findClose_append c closing cs ds 0 with ⟨n, hn, hmore⟩ | ⟨hnone, hmore⟩
    · exact .inl ⟨n + 1, by rw [hn]; rfl, by rw [hmore]; rfl⟩
    · refine .inr ⟨by rw [hnone]; rfl, fun n hn => ?_⟩
      obtain ⟨k, hk, rfl⟩ := Option.map_eq_some_iff.mp hn
      exact Nat.add_le_add_right (hmore k hk) 1
  · exact .inr ⟨lengthAt?_other hc cs, fun n hn => by
      cases (lengthAt?_other hc (cs ++ ds)).symm.trans hn⟩

end Brackets

end Gamebook.Text
