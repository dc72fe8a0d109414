import Gamebook.Text.Space
import Mathlib.Data.List.Basic

/-!
# Positions between characters

Positions in a text are counted in the bytes of its UTF-8 form, and not every one of them lies
between two characters. To cut a text is to fail at a position that does not, and at two positions
in the wrong order (`Text.isSome_slice?_iff`).

Here a position between characters goes with what stands behind it (`Text.At`). The position behind
some more characters is again one (`Text.At.drop`), and to cut the text between the two gives just
these characters (`Text.At.slice?_eq`).
-/

namespace Gamebook.Text

/-! ### Boundaries -/

/-- Whether a position in bytes is one between two characters, or at an end of the text. -/
def Boundary (text : String) (pos : Nat) : Prop :=
  String.Pos.Raw.IsValid text ⟨pos⟩

instance (text : String) (pos : Nat) : Decidable (Boundary text pos) :=
  inferInstanceAs (Decidable (String.Pos.Raw.IsValid text ⟨pos⟩))

/-- The text between two positions. There is none if one of them is not between characters, or if
they are in the wrong order. -/
def slice? (text : String) (start stop : Nat) : Option (List Char) :=
  if h : Boundary text start ∧ Boundary text stop ∧ start ≤ stop then
    some (text.slice ⟨⟨start⟩, h.1⟩ ⟨⟨stop⟩, h.2.1⟩ h.2.2).copy.toList
  else none

/-- Whether some characters are all that stands behind a position. -/
structure At (text : String) (pos : Nat) (behind : List Char) : Prop where
  suffix : behind <:+ text.toList
  place : pos + byteLength behind = text.utf8ByteSize

/-- The size of a text is what its characters take. -/
theorem utf8ByteSize_eq (text : String) : text.utf8ByteSize = byteLength text.toList := by
  have hlist (cs : List Char) : (String.ofList cs).utf8ByteSize = byteLength cs := by
    induction cs with
    | nil => rfl
    | cons c cs ih =>
      rw [String.ofList_cons, String.utf8ByteSize_append, ih, byteLength_cons,
        String.utf8ByteSize_singleton]
  rw [← hlist, String.ofList_toList]

/-- A cut fails only for the reasons that its definition gives. -/
theorem isSome_slice?_iff (text : String) (start stop : Nat) :
    (slice? text start stop).isSome ↔ Boundary text start ∧ Boundary text stop ∧ start ≤ stop := by
  rw [slice?]
  split
  next h => exact iff_of_true rfl h
  next h => exact iff_of_false Bool.false_ne_true h

namespace At

variable {text : String} {pos : Nat} {behind : List Char}

/-- The whole text is behind its start. -/
theorem start (text : String) : At text 0 text.toList :=
  ⟨List.suffix_refl _, by rw [Nat.zero_add, utf8ByteSize_eq]⟩

theorem stop (text : String) : At text text.utf8ByteSize [] :=
  ⟨List.nil_suffix, rfl⟩

/-- The characters in front of a position take as many bytes as it says. -/
theorem exists_front (h : At text pos behind) :
    ∃ front, text.toList = front ++ behind ∧ byteLength front = pos := by
  obtain ⟨front, hfront⟩ := h.suffix
  refine ⟨front, hfront.symm, ?_⟩
  have hplace := h.place
  rw [utf8ByteSize_eq, ← hfront, byteLength_append] at hplace
  omega

/-- Behind the bytes of some characters stands what follows them. -/
theorem of_toList {front : List Char} (h : text.toList = front ++ behind) :
    At text (byteLength front) behind :=
  ⟨h ▸ List.suffix_append front behind, by rw [utf8ByteSize_eq, h, byteLength_append]⟩

/-- It is one between two characters. -/
theorem boundary (h : At text pos behind) : Boundary text pos := by
  obtain ⟨front, hfront, hlength⟩ := h.exists_front
  refine String.Pos.Raw.isValid_iff_exists_append.mpr
    ⟨String.ofList front, String.ofList behind, ?_, ?_⟩
  · rw [← String.ofList_append, ← hfront, String.ofList_toList]
  · rw [String.rawEndPos, utf8ByteSize_eq, String.toList_ofList, hlength]

theorem le (h : At text pos behind) : pos ≤ text.utf8ByteSize := by
  have := h.place
  omega

/-- The position behind some more characters. -/
theorem drop (h : At text pos behind) (n : Nat) :
    At text (pos + byteLength (behind.take n)) (behind.drop n) := by
  refine ⟨(List.drop_suffix n behind).trans h.suffix, ?_⟩
  have hsplit := congrArg byteLength (List.take_append_drop n behind)
  have hplace := h.place
  rw [byteLength_append] at hsplit
  omega

/-- The position behind one more character. -/
theorem next {c : Char} {rest : List Char} (h : At text pos (c :: rest)) :
    At text (pos + c.utf8Size) rest :=
  h.drop 1

/-- The position behind characters that stand at a position. -/
theorem append {part : List Char} (h : At text pos (part ++ behind)) :
    At text (pos + byteLength part) behind := by
  have hdrop := h.drop part.length
  rwa [List.take_left, List.drop_left] at hdrop

/-- The text between two positions is what stands there. -/
theorem slice?_eq {part : List Char} (h : At text pos (part ++ behind)) :
    slice? text pos (pos + byteLength part) = some part := by
  have hstop := h.append
  have hvalid : Boundary text pos ∧ Boundary text (pos + byteLength part) ∧
      pos ≤ pos + byteLength part := ⟨h.boundary, hstop.boundary, Nat.le_add_right _ _⟩
  obtain ⟨front, hfront, hlength⟩ := h.exists_front
  have htext : text = String.ofList front ++ (String.ofList part ++ String.ofList behind) := by
    rw [← String.ofList_append, ← String.ofList_append, ← hfront, String.ofList_toList]
  have hbytes (cs : List Char) : (String.ofList cs).utf8ByteSize = byteLength cs := by
    rw [utf8ByteSize_eq, String.toList_ofList]
  have hfirst : String.Pos.Splits ⟨⟨pos⟩, hvalid.1⟩ (String.ofList front)
      (String.ofList part ++ String.ofList behind) :=
    ⟨htext, by rw [String.rawEndPos, hbytes, hlength]⟩
  have hlast : String.Pos.Splits ⟨⟨pos + byteLength part⟩, hvalid.2.1⟩
      (String.ofList front ++ String.ofList part) (String.ofList behind) :=
    ⟨by rw [String.append_assoc, ← htext],
      by rw [String.rawEndPos, String.utf8ByteSize_append, hbytes, hbytes, hlength]⟩
  obtain ⟨_, hcopy⟩ := String.copy_slice_eq_iff_splits.mpr ⟨_, _, hfirst, hlast⟩
  rw [slice?, dif_pos hvalid, hcopy, String.toList_ofList]

/-- The text up to a position so many characters further on. -/
theorem slice?_take (h : At text pos behind) (n : Nat) :
    slice? text pos (pos + byteLength (behind.take n)) = some (behind.take n) := by
  have hsplit : At text pos (behind.take n ++ behind.drop n) := by
    rwa [List.take_append_drop]
  exact hsplit.slice?_eq

/-- The text up to its end. -/
theorem slice?_end (h : At text pos behind) :
    slice? text pos text.utf8ByteSize = some behind := by
  have hend : At text pos (behind ++ []) := by rwa [List.append_nil]
  rw [← h.place]
  exact hend.slice?_eq

end At

/-- A position between characters has the rest of the text behind it. -/
theorem Boundary.exists_at {text : String} {pos : Nat} (h : Boundary text pos) :
    ∃ behind, At text pos behind := by
  obtain ⟨front, behind, rfl, hpos⟩ := String.Pos.Raw.isValid_iff_exists_append.mp h
  have hlength : pos = byteLength front.toList := by
    rw [← utf8ByteSize_eq]
    exact congrArg String.Pos.Raw.byteIdx hpos
  exact ⟨behind.toList, hlength ▸ At.of_toList String.toList_append⟩

/-- Every character takes at least a byte. -/
theorem byteLength_eq_zero {cs : List Char} (h : byteLength cs = 0) : cs = [] := by
  cases cs with
  | nil => rfl
  | cons c cs =>
    have hpos := Char.utf8Size_pos c
    rw [byteLength_cons] at h
    omega

/-- Of two positions the one further on has less behind it. -/
theorem At.suffix_of_le {text : String} {pos later : Nat} {behind rest : List Char}
    (h : At text pos behind) (hlater : At text later rest) (hle : pos ≤ later) :
    rest <:+ behind := by
  refine (List.suffix_or_suffix_of_suffix hlater.suffix h.suffix).elim id ?_
  rintro ⟨more, rfl⟩
  have hplace := hlater.place.trans h.place.symm
  rw [byteLength_append] at hplace
  obtain rfl : more = [] := byteLength_eq_zero (by omega)
  exact List.suffix_refl _

/-- What is cut from a position on stands there, in front of what is behind the cut. -/
theorem At.exists_of_slice? {text : String} {pos stop : Nat} {behind part : List Char}
    (h : At text pos behind) (hslice : slice? text pos stop = some part) :
    ∃ rest, behind = part ++ rest ∧ stop = pos + byteLength part ∧ At text stop rest := by
  obtain ⟨-, hstop, hle⟩ := (isSome_slice?_iff text pos stop).mp (Option.isSome_of_eq_some hslice)
  obtain ⟨rest, hrest⟩ := hstop.exists_at
  obtain ⟨front, rfl⟩ := h.suffix_of_le hrest hle
  have heq : stop = pos + byteLength front := by
    have hplace := hrest.place.trans h.place.symm
    rw [byteLength_append] at hplace
    omega
  have hfront := h.slice?_eq
  rw [← heq, hslice] at hfront
  obtain rfl := Option.some.inj hfront
  exact ⟨rest, rfl, heq, hrest⟩

end Gamebook.Text
