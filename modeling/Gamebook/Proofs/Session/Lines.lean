import Gamebook.Proofs.Text.Feedless
import Gamebook.Session.File
import Mathlib.Data.List.Basic

/-!
# Lines of text and of bytes

A text of lines is split into the lines again, also in bytes, if no line has a line feed in it or a
carriage return at its end: `Session.ofFile_lines`. In UTF-8 the byte of the line feed stands for
nothing else (`Session.ten_mem_utf8EncodeChar`).
-/

namespace Gamebook.Session

/-! ### Splitting -/

theorem splitLines_append {α : Type} {isFeed : α → Bool} {line : List α}
    (hline : ∀ u ∈ line, isFeed u = false) {feed : α} (hfeed : isFeed feed) (rest : List α) :
    splitLines isFeed (line ++ feed :: rest) = line :: splitLines isFeed rest := by
  induction line with
  | nil => rw [List.nil_append, splitLines, if_pos hfeed]
  | cons u line ih =>
    have hu : isFeed u = false := hline u List.mem_cons_self
    rw [List.cons_append, splitLines, hu, ih fun w hw => hline w (List.mem_cons_of_mem u hw)]
    rfl

/-- Lines with a feed behind each are split off what follows them. -/
theorem splitLines_flatMap_append {α : Type} {isFeed : α → Bool} {feed : α} (hfeed : isFeed feed)
    {lines : List (List α)} (hlines : ∀ line ∈ lines, ∀ u ∈ line, isFeed u = false)
    (rest : List α) :
    splitLines isFeed (lines.flatMap (· ++ [feed]) ++ rest) = lines ++ splitLines isFeed rest := by
  induction lines with
  | nil => rfl
  | cons line lines ih =>
    rw [List.flatMap_cons, List.append_assoc, List.append_assoc, List.singleton_append,
      splitLines_append (hlines line List.mem_cons_self) hfeed,
      ih fun l hl => hlines l (List.mem_cons_of_mem line hl), List.cons_append]

theorem splitLines_flatMap {α : Type} {isFeed : α → Bool} {feed : α} (hfeed : isFeed feed)
    {lines : List (List α)} (hlines : ∀ line ∈ lines, ∀ u ∈ line, isFeed u = false) :
    splitLines isFeed (lines.flatMap (· ++ [feed])) = lines := by
  have hsplit := splitLines_flatMap_append hfeed hlines []
  rwa [List.append_nil, splitLines, List.append_nil] at hsplit

/-! ### Lines that are kept -/

/-- A text that is kept when it is written on a line of its own and read back. -/
structure IsLine (s : String) : Prop where
  no_feed : '\n' ∉ s.toList
  no_return : s.toList.getLast? ≠ some '\r'

instance (s : String) : Decidable (IsLine s) :=
  decidable_of_iff ('\n' ∉ s.toList ∧ s.toList.getLast? ≠ some '\r')
    ⟨fun h => ⟨h.1, h.2⟩, fun h => ⟨h.1, h.2⟩⟩

theorem IsLine.withoutReturns {s : String} (h : IsLine s) : withoutReturns s.toList = s := by
  have hdrop : s.toList.reverse.dropWhile (· == '\r') = s.toList.reverse := by
    cases hrev : s.toList.reverse with
    | nil => rfl
    | cons c cs =>
      have hlast : s.toList.getLast? = some c := by
        rw [List.getLast?_eq_head?_reverse, hrev]
        rfl
      refine List.dropWhile_cons_of_neg fun hreturn => h.no_return ?_
      rw [hlast, beq_iff_eq.mp hreturn]
  rw [Session.withoutReturns, hdrop, List.reverse_reverse, String.ofList_toList]

/-- A text without either kind of line break is kept. -/
theorem isLine_of_unbroken {s : String} (h : Text.Unbroken s.toList) : IsLine s where
  no_feed hmem := (h _ hmem).1 rfl
  no_return hlast := (h _ (List.mem_of_getLast? hlast)).2 rfl

/-- A text put on one line has no line breaks. -/
theorem unbroken_oneLine (s : String) : Text.Unbroken (Text.oneLine s).toList := by
  intro c hc
  rw [Text.oneLine, String.toList_map] at hc
  obtain ⟨d, -, rfl⟩ := List.mem_map.mp hc
  split
  next => exact ⟨by decide, by decide⟩
  next hd => simpa [and_comm] using hd

/-- A text put on one line is kept. -/
theorem isLine_oneLine (s : String) : IsLine (Text.oneLine s) :=
  isLine_of_unbroken (unbroken_oneLine s)

/-! ### Bytes -/

/-- In UTF-8 the byte of the line feed stands for the line feed. -/
theorem ten_mem_utf8EncodeChar {c : Char} (h : 10 ∈ String.utf8EncodeChar c) : c = '\n' := by
  have hbyte : ∀ n : Nat, 128 ≤ n → n < 256 → (10 : UInt8) ≠ UInt8.ofNat n := by
    intro n hlow hhigh heq
    have hnat := congrArg UInt8.toNat heq
    rw [UInt8.toNat_ofNat'] at hnat
    simp only [UInt8.toNat_ofNat] at hnat
    omega
  unfold String.utf8EncodeChar at h
  simp only at h
  split at h
  next hsmall =>
    have hnat := congrArg UInt8.toNat (List.mem_singleton.mp h)
    rw [UInt8.toNat_ofNat'] at hnat
    simp only [UInt8.toNat_ofNat] at hnat
    refine Char.ext (UInt32.toNat_inj.mp ?_)
    show c.val.toNat = 10
    omega
  next =>
    -- every byte of a longer sequence has its high bit set
    exfalso
    split at h
    · simp only [List.mem_cons, List.not_mem_nil, or_false] at h
      rcases h with h | h <;> exact hbyte _ (by omega) (by omega) h
    · split at h
      · simp only [List.mem_cons, List.not_mem_nil, or_false] at h
        rcases h with h | h | h <;> exact hbyte _ (by omega) (by omega) h
      · simp only [List.mem_cons, List.not_mem_nil, or_false] at h
        rcases h with h | h | h | h <;> exact hbyte _ (by omega) (by omega) h

/-- The list of some bytes, of which `r` are collected already. -/
theorem toList_loop (bytes : ByteArray) (i : Nat) (r : List UInt8) :
    ByteArray.toList.loop bytes i r = r.reverse ++ bytes.data.toList.drop i := by
  fun_induction ByteArray.toList.loop bytes i r with
  | case1 i r hlt ih =>
    have hdrop : bytes.data.toList.drop i = bytes.get! i :: bytes.data.toList.drop (i + 1) := by
      rw [List.drop_eq_getElem_cons (Array.length_toList ▸ hlt)]
      simp [ByteArray.get!, hlt]
    rw [ih, hdrop, List.reverse_cons, List.append_assoc, List.singleton_append]
  | case2 i r hge =>
    have hdrop : bytes.data.toList.drop i = [] :=
      List.drop_eq_nil_of_le (Array.length_toList ▸ Nat.le_of_not_lt hge)
    rw [hdrop, List.append_nil]

/-- The bytes of a text. -/
theorem toList_toUTF8 (s : String) : s.toUTF8.toList = s.toList.flatMap String.utf8EncodeChar := by
  rw [String.toUTF8_eq_toByteArray, ByteArray.toList, toList_loop, ← String.utf8Encode_toList,
    List.utf8Encode, List.toList_data_toByteArray]
  rfl

theorem lineText?_utf8 {s : String} (h : IsLine s) :
    lineText? (s.toList.flatMap String.utf8EncodeChar) = some s := by
  have hbytes :
      (⟨(s.toList.flatMap String.utf8EncodeChar).toArray⟩ : ByteArray) = s.toByteArray := by
    rw [← String.utf8Encode_toList, List.utf8Encode]
    exact ByteArray.ext List.data_toByteArray.symm
  rw [lineText?, hbytes, String.fromUTF8?, dif_pos s.isValidUTF8, Option.map_some]
  exact congrArg some h.withoutReturns

/-- There is no line feed among the bytes of a line. -/
theorem IsLine.not_feed_utf8 {line : String} (h : IsLine line) :
    ∀ u ∈ line.toList.flatMap String.utf8EncodeChar, (u == 10) = false := by
  intro u hu
  obtain ⟨c, hc, hu⟩ := List.mem_flatMap.mp hu
  rw [beq_eq_false_iff_ne]
  rintro rfl
  exact h.no_feed (ten_mem_utf8EncodeChar hu ▸ hc)

/-- The bytes of lines are read as the lines. -/
theorem ofFile_lines {lines : List String} (hlines : ∀ line ∈ lines, IsLine line) :
    ofFile (String.join (lines.map fun line => line ++ "\n")).toUTF8.toList =
      ofLines (lines.map some) := by
  have hjoin : (String.join (lines.map fun line => line ++ "\n")).toUTF8.toList =
      (lines.map fun line => line.toList.flatMap String.utf8EncodeChar).flatMap (· ++ [10]) := by
    rw [toList_toUTF8, String.toList_join, List.flatMap_map, List.flatMap_map, List.flatMap_assoc]
    refine List.flatMap_congr fun line _ => ?_
    rw [String.toList_append, List.flatMap_append]
    rfl
  rw [ofFile, hjoin, splitLines_flatMap rfl, List.map_map]
  · refine congrArg ofLines (List.map_congr_left fun line hline => ?_)
    exact lineText?_utf8 (hlines line hline)
  · intro bytes hbytes
    obtain ⟨line, hline, rfl⟩ := List.mem_map.mp hbytes
    exact (hlines line hline).not_feed_utf8

end Gamebook.Session
