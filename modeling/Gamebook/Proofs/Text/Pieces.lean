import Gamebook.Proofs.Text.Brackets

/-!
# Texts in pieces

A text that is cut at separators is made of its pieces: with the separators between them they give
it back (`joined_splitTopLevel`). For storing, each piece gets brackets of its own. In a text
without brackets outside of escapes, and that does not end in the middle of one, the bracket behind
a piece is the one that closes it.
-/

namespace Gamebook.Text

/-! ### Texts without brackets -/

/-- A text with no bracket outside of escapes, whose escapes are complete. -/
inductive Unbracketed : List Char → Prop
  /-- The empty text. -/
  | nil : Unbracketed []
  /-- An escaped character in front. -/
  | escape (c : Char) {cs : List Char} : Unbracketed cs → Unbracketed ('\\' :: c :: cs)
  /-- Any other character in front. -/
  | char {c : Char} {cs : List Char} :
      c ≠ '\\' → c ≠ '[' → c ≠ ']' → Unbracketed cs → Unbracketed (c :: cs)

theorem Unbracketed.stepwise : Stepwise Unbracketed where
  nil := .nil
  escape h := by
    cases h with
    | escape c h => exact ⟨h, .escape _⟩
    | char hc => exact absurd rfl hc
  char hc h := by
    cases h with
    | escape => exact absurd rfl hc
    | char _ hopen hclose h => exact ⟨h, .char hc hopen hclose⟩

/-- Whether a text is without brackets is seen from the front. -/
instance Unbracketed.instDecidable : DecidablePred Unbracketed
  | [] => isTrue .nil
  | [c] => decidable_of_iff (c ≠ '\\' ∧ c ≠ '[' ∧ c ≠ ']')
      ⟨fun h => .char h.1 h.2.1 h.2.2 .nil, fun h => by
        cases h with
        | char hc hopen hclose => exact ⟨hc, hopen, hclose⟩⟩
  | c :: d :: cs =>
    if hc : c = '\\' then
      have := instDecidable cs
      decidable_of_iff (Unbracketed cs)
        ⟨fun h => hc ▸ .escape d h, fun h => (stepwise.escape (hc ▸ h)).1⟩
    else
      have := instDecidable (d :: cs)
      decidable_of_iff (c ≠ '[' ∧ c ≠ ']' ∧ Unbracketed (d :: cs))
        ⟨fun h => .char hc h.1 h.2.1 h.2.2, fun h => by
          cases h with
          | escape => exact absurd rfl hc
          | char _ hopen hclose h => exact ⟨hopen, hclose, h⟩⟩

/-- The bracket behind a text without brackets closes the one in front of it. -/
theorem Unbracketed.findClose {body : List Char} (h : Unbracketed body) (behind : List Char) :
    findClose '[' ']' 0 (body ++ ']' :: behind) = some (body.length + 1) := by
  induction h with
  | nil => exact findClose_closing (by decide) behind
  | escape c _ ih =>
    rw [List.cons_append, List.cons_append, findClose_escape, ih]
    rfl
  | char hc hopen hclose _ ih =>
    rw [List.cons_append, findClose_char hc hopen hclose, ih]
    rfl

/-! ### Pieces -/

/-- The pieces without the separators. -/
def Pieces.texts (p : Pieces) : List (List Char) :=
  p.head :: p.tail.map (·.2)

/-- The pieces with the separators between them. -/
def Pieces.joined (p : Pieces) : List Char :=
  p.head ++ p.tail.flatMap fun (sep, piece) => sep :: piece

/-- The pieces, each in brackets, with the separators between them. -/
def Pieces.bracketed (p : Pieces) : List Char :=
  '[' :: p.head ++ ']' :: p.tail.flatMap fun (sep, piece) => sep :: '[' :: piece ++ [']']

/-- Pieces of which each has a mark in front. -/
def Pieces.marked (mark : Char) (p : Pieces) : Pieces :=
  ⟨mark :: p.head, p.tail.map fun (sep, piece) => (sep, mark :: piece)⟩

/-- Two rows of pieces as one, with a separator between them. -/
def Pieces.append (p : Pieces) (sep : Char) (q : Pieces) : Pieces :=
  ⟨p.head, p.tail ++ (sep, q.head) :: q.tail⟩

theorem Pieces.bracketed_append (p : Pieces) (sep : Char) (q : Pieces) :
    (p.append sep q).bracketed = p.bracketed ++ sep :: q.bracketed := by
  simp [append, bracketed]

theorem Pieces.texts_append (p : Pieces) (sep : Char) (q : Pieces) :
    (p.append sep q).texts = p.texts ++ q.texts := by
  simp [append, texts]

theorem Pieces.texts_marked (mark : Char) (p : Pieces) :
    (p.marked mark).texts = p.texts.map (mark :: ·) := by
  simp [marked, texts]

/-- What holds of the pieces of a text, which stand between separators. -/
structure Pieces.All (isSeparator : Char → Bool) (P : List Char → Prop) (p : Pieces) : Prop where
  head : P p.head
  tail : ∀ part ∈ p.tail, isSeparator part.1 = true ∧ P part.2

namespace Pieces.All

variable {isSeparator : Char → Bool} {P : List Char → Prop} {p q : Pieces}

theorem append (hp : p.All isSeparator P) {sep : Char} (hsep : isSeparator sep = true)
    (hq : q.All isSeparator P) : (p.append sep q).All isSeparator P := by
  refine ⟨hp.head, fun part hpart => ?_⟩
  rcases List.mem_append.mp hpart with hpart | hpart
  · exact hp.tail part hpart
  · rcases List.mem_cons.mp hpart with rfl | hpart
    · exact ⟨hsep, hq.head⟩
    · exact hq.tail part hpart

theorem marked {Q : List Char → Prop} {mark : Char} (hp : p.All isSeparator P)
    (hmark : ∀ {piece}, P piece → Q (mark :: piece)) : (p.marked mark).All isSeparator Q := by
  refine ⟨hmark hp.head, fun part hpart => ?_⟩
  obtain ⟨piece, hpiece, rfl⟩ := List.mem_map.mp hpart
  exact ⟨(hp.tail piece hpiece).1, hmark (hp.tail piece hpiece).2⟩

/-- The pieces of a text are of the kind of the text. -/
theorem splitTopLevel (hP : Stepwise P) (depth : Nat) {cs : List Char} (h : P cs) :
    (Text.splitTopLevel isSeparator depth cs).All isSeparator P :=
  ⟨(hP.splitTopLevel isSeparator depth h).1, (hP.splitTopLevel isSeparator depth h).2⟩

end Pieces.All

/-- A text is made of its pieces, and of the separators between them. -/
theorem joined_splitTopLevel (isSeparator : Char → Bool) (depth : Nat) (cs : List Char) :
    (splitTopLevel isSeparator depth cs).joined = cs := by
  have hprepend : ∀ (ds : List Char) (p : Pieces), (p.prepend ds).joined = ds ++ p.joined :=
    fun ds p => List.append_assoc ..
  fun_induction splitTopLevel isSeparator depth cs with
  | case1 => rfl
  | case2 => rfl
  | case3 _ _ _ ih => rw [hprepend, ih, List.cons_append, List.singleton_append]
  | case6 _ _ _ _ _ _ _ _ _ ih => exact congrArg _ ih
  | case4 _ _ _ _ ih | case5 _ _ _ _ _ ih | case7 _ _ _ _ _ _ _ _ ih =>
    rw [hprepend, ih, List.singleton_append]

end Gamebook.Text
