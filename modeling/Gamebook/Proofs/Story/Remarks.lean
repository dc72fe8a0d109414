import Gamebook.Proofs.Story.Append
import Gamebook.Proofs.Text.Bare

/-!
# Remarks, byte by byte

A source is read with its remarks blanked out. Its bytes stay where they are: those of remarks
become spaces, one for each, and all others are as before (`Source.getElem?_blankRemarks`). What
belongs to a remark can be told from the bytes of the source alone: it stands in a line behind a
bare `//`, or is part of that mark (`Source.InRemark`).

Remarks are searched for in each line by itself. So a backslash at the end of a line hides nothing
in the next one.
-/

namespace Gamebook.Source

open Text

/-! ### Bytes of remarks -/

/-- The byte of a line feed. -/
def feedByte : UInt8 :=
  Units.ofChar '\n'

/-- The byte of a space. -/
def spaceByte : UInt8 :=
  Units.ofChar ' '

/-- Whether a line starts at a position: at the beginning, or behind a line feed. -/
def LineStart (text : String) (pos : Nat) : Prop :=
  pos = 0 ∨ ∃ before, pos = before + 1 ∧ (utf8 text.toList)[before]? = some feedByte

/-- Whether a byte belongs to a remark: in its line, up to it, `//` stands bare. -/
def InRemark (text : String) (pos : Nat) : Prop :=
  ∃ line mark, LineStart text line ∧ mark ∈ barePositions text line {Marker.comment.sought} ∧
    mark ≤ pos ∧ pos < text.utf8ByteSize ∧
    ∀ i, line ≤ i → i ≤ pos → (utf8 text.toList)[i]? ≠ some feedByte

/-! ### Bytes of lines -/

theorem isMark_comment :
    ∀ mark ∈ ({Marker.comment.sought} : Set (List Char)), IsMark mark := by
  rintro mark rfl
  decide

/-- A text is a last line, or a line in front of a text. -/
@[elab_as_elim]
theorem line_induction {P : List Char → Prop} (last : ∀ line, '\n' ∉ line → P line)
    (line : ∀ line rest, '\n' ∉ line → P rest → P (line ++ '\n' :: rest)) (cs : List Char) :
    P cs := by
  induction hn : cs.length using Nat.strongRecOn generalizing cs with
  | ind n ih =>
    subst hn
    by_cases hfeed : '\n' ∈ cs
    · obtain ⟨front, rest, rfl, hfront⟩ := List.eq_append_cons_of_mem hfeed
      refine line front rest hfront (ih rest.length ?_ rest rfl)
      rw [List.length_append, List.length_cons]
      omega
    · exact last cs hfeed

section Line

variable {text : String} {pos : Nat} {line rest : List Char}

/-- No line feed stands in a line. -/
theorem getElem?_line_ne (hfeed : '\n' ∉ line) (i : Nat) : (utf8 line)[i]? ≠ some feedByte :=
  fun h => hfeed (mem_of_mem_utf8 (by decide) (List.mem_of_getElem? h))

theorem getElem?_left {i : Nat} (hi : i < byteLength line) :
    (utf8 (line ++ rest))[i]? = (utf8 line)[i]? := by
  rw [utf8_append, List.getElem?_append_left (by rwa [length_utf8])]

/-- A mark does not reach from one line into the next. -/
theorem barePlaces_line (hrest : rest.head? ≠ some '/') {place : Nat}
    (hplace : place < line.length) :
    place ∈ barePlaces Marker.comment.startsAt (line ++ rest) ↔
      place ∈ barePlaces Marker.comment.startsAt line := by
  have hne : line.drop place ≠ [] := by
    rw [Ne, List.drop_eq_nil_iff]
    omega
  have hhit : Marker.comment.startsAt (line.drop place ++ rest) =
      Marker.comment.startsAt (line.drop place) := by
    change ['/', '/'].isPrefixOf _ = ['/', '/'].isPrefixOf _
    match hdrop : line.drop place with
    | [] => exact absurd hdrop hne
    | [c] =>
      cases rest with
      | nil => rfl
      | cons d rest =>
        have hd : ('/' == d) = false := by
          rw [beq_eq_false_iff_ne]
          rintro rfl
          exact hrest rfl
        simp [List.isPrefixOf, hd]
    | c :: d :: more => rfl
  rw [barePlaces, barePlaces, Set.mem_ofPred_eq, Set.mem_ofPred_eq,
    List.drop_append_of_le_length (Nat.le_of_lt hplace),
    List.take_append_of_le_length (Nat.le_of_lt hplace), hhit]

/-- A line starts where no line feed stands between it and what belongs to it. -/
theorem LineStart.eq (h : At text pos (line ++ rest)) (hstart : LineStart text pos)
    (hfeed : '\n' ∉ line) {i other : Nat} (hi : i < byteLength line) (hother : LineStart text other)
    (hle : other ≤ pos + i)
    (hfree : ∀ j, other ≤ j → j ≤ pos + i → (utf8 text.toList)[j]? ≠ some feedByte) :
    other = pos := by
  rcases Nat.lt_trichotomy other pos with hlt | heq | hlt
  · obtain rfl | ⟨before, rfl, hbefore⟩ := hstart
    · exact absurd hlt (Nat.not_lt_zero other)
    · exact absurd hbefore (hfree before (Nat.le_of_lt_succ hlt) (by omega))
  · exact heq
  · obtain rfl | ⟨before, rfl, hbefore⟩ := hother
    · exact absurd hlt (Nat.not_lt_zero pos)
    · obtain ⟨j, rfl⟩ := Nat.exists_eq_add_of_le (Nat.le_of_lt_succ hlt)
      rw [h.getElem?_add, getElem?_left (by omega)] at hbefore
      exact absurd hbefore (getElem?_line_ne hfeed j)

/-- In a line the bytes of its remark are those behind the first mark that is found. -/
theorem inRemark_iff (h : At text pos (line ++ rest)) (hstart : LineStart text pos)
    (hfeed : '\n' ∉ line) (hrest : rest.head? ≠ some '/') {i : Nat} (hi : i < byteLength line) :
    InRemark text (pos + i) ↔ ∃ n, find Marker.comment.startsAt line = some n ∧
      byteLength (line.take n) ≤ i := by
  have hbare := h.barePositions_eq isMark_comment (Marker.startsAt_iff fun _ _ => rfl)
  have hfirst : IsFirst (barePlaces Marker.comment.startsAt line)
      (find Marker.comment.startsAt line) := find_isFirst rfl (fun _ => rfl) line
  have hfree {j : Nat} (hle : pos ≤ j) (hlast : j ≤ pos + i) :
      (utf8 text.toList)[j]? ≠ some feedByte := by
    obtain ⟨k, rfl⟩ := Nat.exists_eq_add_of_le hle
    rw [h.getElem?_add, getElem?_left (by omega)]
    exact getElem?_line_ne hfeed k
  constructor
  · rintro ⟨other, mark, hother, hmark, hle, -, hnone⟩
    obtain rfl := LineStart.eq h hstart hfeed hi hother (Nat.le_trans hmark.1 hle) hnone
    rw [hbare] at hmark
    obtain ⟨n, hn, rfl⟩ := hmark
    dsimp only at hle
    have hwithin : n < line.length := by
      by_contra hbeyond
      rw [List.take_append, List.take_of_length_le (Nat.le_of_not_lt hbeyond),
        byteLength_append] at hle
      omega
    rw [List.take_append_of_le_length (Nat.le_of_lt hwithin)] at hle
    have hplace := (barePlaces_line hrest hwithin).mp hn
    obtain ⟨first, hfind⟩ := Option.ne_none_iff_exists'.mp fun hnone =>
      Set.notMem_empty n (hfirst.eq_none_iff.mp hnone ▸ hplace)
    have hmono := monotone_byteLength_take line (((hfirst.eq_some_iff first).mp hfind).2 hplace)
    dsimp only at hmono
    exact ⟨first, hfind, by omega⟩
  · rintro ⟨n, hfind, hle⟩
    have hplace := ((hfirst.eq_some_iff n).mp hfind).1
    have hwithin : n < line.length := by
      by_contra hbeyond
      rw [List.take_of_length_le (Nat.le_of_not_lt hbeyond)] at hle
      omega
    have hsize := h.place
    rw [byteLength_append] at hsize
    refine ⟨pos, pos + byteLength (line.take n), hstart, ?_, Nat.add_le_add_left hle pos, by omega,
      fun j => hfree⟩
    rw [hbare]
    refine ⟨n, (barePlaces_line hrest hwithin).mpr hplace, ?_⟩
    dsimp only
    rw [List.take_append_of_le_length (Nat.le_of_lt hwithin)]

/-- A line keeps its bytes, but for those of its remark. -/
theorem getElem?_blankRemark (h : At text pos (line ++ rest)) (hstart : LineStart text pos)
    (hfeed : '\n' ∉ line) (hrest : rest.head? ≠ some '/') {i : Nat} (hi : i < byteLength line) :
    (InRemark text (pos + i) → (utf8 (blankRemark line))[i]? = some spaceByte) ∧
      (¬ InRemark text (pos + i) → (utf8 (blankRemark line))[i]? = (utf8 line)[i]?) := by
  have hspaces (n : Nat) : utf8 (List.replicate n ' ') = List.replicate n spaceByte := by
    induction n with
    | zero => rfl
    | succ n ih =>
      rw [List.replicate_succ, List.replicate_succ, utf8_ascii (by decide), ih]
      rfl
  rw [inRemark_iff h hstart hfeed hrest hi, blankRemark, stripComment, cut]
  cases hfind : find Marker.comment.startsAt line with
  | none =>
    refine ⟨fun hremark => ?_, fun _ => ?_⟩
    · obtain ⟨n, hn, -⟩ := hremark
      cases hn
    dsimp only [Option.map_none]
    rw [Nat.sub_self, List.replicate_zero, List.append_nil]
  | some n =>
    dsimp only [Option.map_some]
    rw [List.splitAt_eq, utf8_append, hspaces]
    dsimp only
    have hsplit : utf8 line = utf8 (line.take n) ++ utf8 (line.drop n) := by
      rw [← utf8_append, List.take_append_drop]
    constructor
    · rintro ⟨m, hm, hle⟩
      obtain rfl := Option.some.inj hm
      rw [List.getElem?_append_right (by rwa [length_utf8]), List.getElem?_replicate, if_pos]
      rw [length_utf8]
      omega
    · intro hnot
      have hlt : i < byteLength (line.take n) := by
        by_contra hle
        exact hnot ⟨n, rfl, Nat.le_of_not_lt hle⟩
      rw [hsplit, List.getElem?_append_left (by rwa [length_utf8]),
        List.getElem?_append_left (by rwa [length_utf8])]

end Line

/-! ### Bytes of sources -/

/-- A byte that is no line feed's is needed for a remark, and none is beyond the end. -/
theorem not_inRemark {text : String} {pos : Nat}
    (h : (utf8 text.toList)[pos]? = some feedByte ∨ text.utf8ByteSize ≤ pos) :
    ¬ InRemark text pos := by
  rintro ⟨line, mark, -, hmark, hle, hlt, hfree⟩
  rcases h with hfeed | hend
  · exact hfree pos (Nat.le_trans hmark.1 hle) (Nat.le_refl pos) hfeed
  · exact Nat.not_lt_of_le hend hlt

/-- A text from the start of a line on keeps its bytes, but for those of its remarks. -/
theorem getElem?_blankRemarks_from {text : String} {pos : Nat} {cs : List Char} (h : At text pos cs)
    (hstart : LineStart text pos) (i : Nat) :
    (InRemark text (pos + i) → (utf8 (blankRemarks cs))[i]? = some spaceByte) ∧
      (¬ InRemark text (pos + i) → (utf8 (blankRemarks cs))[i]? = (utf8 cs)[i]?) := by
  induction cs using line_induction generalizing pos i with
  | last line hfeed =>
    have hblank : blankRemarks line = blankRemark line := by
      rw [blankRemarks, split_of_notMem hfeed, List.map_singleton]
      simp
    rw [hblank]
    rcases Nat.lt_or_ge i (byteLength line) with hi | hi
    · have hwhole : At text pos (line ++ []) := by rwa [List.append_nil]
      exact getElem?_blankRemark hwhole hstart hfeed (by simp) hi
    · have hend : text.utf8ByteSize ≤ pos + i := by
        have := h.place
        omega
      refine ⟨fun hremark => absurd hremark (not_inRemark (.inr hend)), fun _ => ?_⟩
      rw [List.getElem?_eq_none (by rwa [length_utf8, byteLength_blankRemark]),
        List.getElem?_eq_none (by rwa [length_utf8])]
  | line line rest hfeed ih =>
    have hblank : blankRemarks (line ++ '\n' :: rest) =
        blankRemark line ++ '\n' :: blankRemarks rest := by
      rw [blankRemarks_append, blankRemarks, split_of_notMem hfeed, List.map_singleton]
      simp
    have hlength : (utf8 (blankRemark line)).length = byteLength line := by
      rw [length_utf8, byteLength_blankRemark]
    have hbyte : (utf8 text.toList)[pos + byteLength line]? = some feedByte := by
      rw [h.getElem?_add, utf8_append, utf8_ascii (by decide), ← length_utf8,
        List.getElem?_append_right (Nat.le_refl _), Nat.sub_self]
      rfl
    rw [hblank, utf8_append, utf8_append, utf8_ascii (by decide), utf8_ascii (by decide)]
    rcases Nat.lt_trichotomy i (byteLength line) with hi | rfl | hi
    · rw [List.getElem?_append_left (by omega), List.getElem?_append_left (by rwa [length_utf8])]
      exact getElem?_blankRemark h hstart hfeed (by simp) hi
    · refine ⟨fun hremark => absurd hremark (not_inRemark (.inl hbyte)), fun _ => ?_⟩
      rw [List.getElem?_append_right (by omega), hlength, ← length_utf8,
        List.getElem?_append_right (Nat.le_refl _), Nat.sub_self]
      rfl
    · -- behind the line feed another line starts
      obtain ⟨k, rfl⟩ := Nat.exists_eq_add_of_lt hi
      have hbehind := ih h.append.next (.inr ⟨pos + byteLength line, rfl, hbyte⟩) k
      have hplace : pos + (byteLength line + k + 1) =
          pos + byteLength line + ('\n' : Char).utf8Size + k := by
        rw [utf8Size_ascii (by decide)]
        omega
      have hindex : byteLength line + k + 1 - byteLength line = k + 1 := by omega
      rw [hplace, List.getElem?_append_right (by omega), hlength,
        List.getElem?_append_right (by rw [length_utf8]; omega), length_utf8, hindex,
        List.getElem?_cons_succ, List.getElem?_cons_succ]
      exact hbehind

/-- A source keeps its bytes, but for those of its remarks, which become spaces. -/
theorem getElem?_blankRemarks (source : String) (i : Nat) :
    (InRemark source i → (utf8 (blankRemarks source.toList))[i]? = some spaceByte) ∧
      (¬ InRemark source i →
        (utf8 (blankRemarks source.toList))[i]? = (utf8 source.toList)[i]?) := by
  have hwhole := getElem?_blankRemarks_from (At.start source) (.inl rfl) i
  rwa [Nat.zero_add] at hwhole

/-- Line feeds stay in place, and there are no others. -/
theorem feed_blankRemarks (source : String) (i : Nat) :
    (utf8 (blankRemarks source.toList))[i]? = some feedByte ↔
      (utf8 source.toList)[i]? = some feedByte := by
  obtain ⟨hremark, hother⟩ := getElem?_blankRemarks source i
  by_cases hin : InRemark source i
  · refine iff_of_false (fun hfeed => ?_) fun hfeed => not_inRemark (.inl hfeed) hin
    exact absurd ((hremark hin).symm.trans hfeed) (by decide)
  · rw [hother hin]

end Gamebook.Source
