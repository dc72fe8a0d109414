import Gamebook.Proofs.Text.Boundaries
import Gamebook.Proofs.Text.Joining

/-!
# Searching in bytes

A search for characters of ASCII may go over the bytes of a text and never look at its characters.
No byte of another character is mistaken for one of these (`Text.isHigh_of_mem`), and the width of
an escaped character is known from its first byte (`Text.sequenceLength_head`). So the search comes
to the same place as one over the characters (`Text.find_utf8`, `Text.findClose_utf8`). If it starts
between two characters, it stops between two characters (`Text.At.firstOf?_eq`,
`Text.At.stop?_eq`).
-/

namespace Gamebook.Text

/-! ### Bytes of characters -/

theorem utf8_cons (c : Char) (cs : List Char) :
    utf8 (c :: cs) = String.utf8EncodeChar c ++ utf8 cs := by
  rw [utf8, utf8, List.flatMap_cons]

theorem utf8_append (cs ds : List Char) : utf8 (cs ++ ds) = utf8 cs ++ utf8 ds :=
  List.flatMap_append

/-- The size of a text counts its bytes. -/
theorem length_utf8 (cs : List Char) : (utf8 cs).length = byteLength cs := by
  induction cs with
  | nil => rfl
  | cons c cs ih =>
    rw [utf8_cons, List.length_append, String.length_utf8EncodeChar, ih, byteLength_cons]

/-- The bytes behind a position are those of the characters behind it. -/
theorem At.drop_utf8 {text : String} {pos : Nat} {behind : List Char} (h : At text pos behind) :
    (utf8 text.toList).drop pos = utf8 behind := by
  obtain ⟨front, hfront, hlength⟩ := h.exists_front
  rw [hfront, utf8_append, ← hlength, ← length_utf8, List.drop_left]

theorem At.getElem?_add {text : String} {pos : Nat} {behind : List Char} (h : At text pos behind)
    (i : Nat) : (utf8 text.toList)[pos + i]? = (utf8 behind)[i]? := by
  rw [← List.getElem?_drop, h.drop_utf8]

/-- A character of ASCII is one byte. -/
theorem utf8EncodeChar_ascii {c : Char} (h : c.toNat < 0x80) :
    String.utf8EncodeChar c = [Units.ofChar c] := by
  have hval : c.val ≤ 127 := UInt32.le_iff_toNat_le.mpr (Nat.le_of_lt_succ h)
  exact String.utf8EncodeChar_eq_singleton (Char.utf8Size_eq_one_iff.mpr hval)

/-- A character that is a byte takes one. -/
theorem utf8Size_ascii {c : Char} (h : c.toNat < 0x80) : c.utf8Size = 1 := by
  rw [← String.length_utf8EncodeChar, utf8EncodeChar_ascii h]
  rfl

/-- Whether a byte belongs to a character outside of ASCII. -/
def IsHigh (u : UInt8) : Prop :=
  0x80 ≤ u.toNat

/-- A character outside of ASCII has high bytes only. -/
theorem isHigh_of_mem {c : Char} (h : 0x80 ≤ c.toNat) :
    ∀ u ∈ String.utf8EncodeChar c, IsHigh u := by
  have hbyte (n : Nat) (hlow : 0x80 ≤ n) (hhigh : n < 0x100) : IsHigh (UInt8.ofNat n) := by
    rw [IsHigh, UInt8.toNat_ofNat']
    omega
  have hval : ¬ c.val.toNat ≤ 127 := Nat.not_le_of_lt h
  intro u hu
  unfold String.utf8EncodeChar at hu
  simp only [hval, if_false] at hu
  split at hu
  · simp only [List.mem_cons, List.not_mem_nil, or_false] at hu
    rcases hu with rfl | rfl <;> exact hbyte _ (by omega) (by omega)
  · split at hu
    · simp only [List.mem_cons, List.not_mem_nil, or_false] at hu
      rcases hu with rfl | rfl | rfl <;> exact hbyte _ (by omega) (by omega)
    · simp only [List.mem_cons, List.not_mem_nil, or_false] at hu
      rcases hu with rfl | rfl | rfl | rfl <;> exact hbyte _ (by omega) (by omega)

/-- The first byte of a character tells how many it has. -/
theorem sequenceLength_head (c : Char) : ∃ u more, String.utf8EncodeChar c = u :: more ∧
    sequenceLength u = c.utf8Size := by
  have hbyte (n : Nat) (h : n < 0x100) : sequenceLength (UInt8.ofNat n) =
      if n < 0x80 then 1 else if n < 0xC0 then 0 else if n < 0xE0 then 2
        else if n < 0xF0 then 3 else 4 := by
    have hnat : (UInt8.ofNat n).toNat = n := by
      rw [UInt8.toNat_ofNat']
      exact Nat.mod_eq_of_lt h
    simp only [sequenceLength, UInt8.lt_iff_toNat_lt, hnat]
    rfl
  have hcount : ∃ u more, String.utf8EncodeChar c = u :: more ∧
      sequenceLength u = more.length + 1 := by
    have hval : c.val.toNat < 0x110000 := by
      have hvalid := c.valid
      rcases hvalid with hlt | ⟨-, hlt⟩
      · exact Nat.lt_trans hlt (by decide)
      · exact hlt
    unfold String.utf8EncodeChar
    dsimp only
    split
    · refine ⟨_, [], rfl, ?_⟩
      rw [hbyte _ (by omega), if_pos (by omega)]
      rfl
    split
    · refine ⟨_, [_], rfl, ?_⟩
      rw [hbyte _ (by omega), if_neg (by omega), if_neg (by omega), if_pos (by omega)]
      rfl
    split
    · refine ⟨_, [_, _], rfl, ?_⟩
      rw [hbyte _ (by omega), if_neg (by omega), if_neg (by omega), if_neg (by omega),
        if_pos (by omega)]
      rfl
    · refine ⟨_, [_, _, _], rfl, ?_⟩
      rw [hbyte _ (by omega), if_neg (by omega), if_neg (by omega), if_neg (by omega),
        if_neg (by omega)]
      rfl
  obtain ⟨u, more, heq, hlength⟩ := hcount
  refine ⟨u, more, heq, ?_⟩
  rw [hlength, ← String.length_utf8EncodeChar, heq, List.length_cons]

/-! ### Searching in bytes -/

/-- An escape is as long in bytes as its two characters. -/
theorem escapeLength_utf8 (u : UInt8) (c : Char) (cs : List Char) :
    escapeLength (u :: utf8 (c :: cs)) = 1 + c.utf8Size := by
  obtain ⟨first, more, heq, hwidth⟩ := sequenceLength_head c
  rw [utf8_cons, heq, List.cons_append, escapeLength, ← hwidth]
  rfl

/-- Characters that are bytes are told apart by them. -/
theorem ofChar_inj {c d : Char} (hc : c.toNat < 0x80) (hd : d.toNat < 0x80) :
    (Units.ofChar c : UInt8) = Units.ofChar d ↔ c = d := by
  have hnat {c : Char} (hc : c.toNat < 0x80) : (Units.ofChar c : UInt8).toNat = c.toNat := by
    have hbyte : (Units.ofChar c : UInt8).toNat = c.toNat % 2 ^ 8 := UInt8.toNat_ofNat'
    rw [hbyte]
    omega
  refine ⟨fun h => ?_, congrArg _⟩
  have heq := congrArg UInt8.toNat h
  rw [hnat hc, hnat hd] at heq
  exact Char.ext (UInt32.toNat_inj.mp heq)

/-- No byte of a longer character is one of these. -/
theorem ofChar_ne_of_isHigh {u : UInt8} (hu : IsHigh u) {c : Char} (hc : c.toNat < 0x80) :
    u ≠ Units.ofChar c := by
  rintro rfl
  have hbyte : (Units.ofChar c : UInt8).toNat = c.toNat % 2 ^ 8 := UInt8.toNat_ofNat'
  rw [IsHigh, hbyte] at hu
  omega

/-- A character of ASCII is in a text if its byte is one of the text. -/
theorem mem_of_mem_utf8 {c : Char} (hc : c.toNat < 0x80) {cs : List Char}
    (h : Units.ofChar c ∈ utf8 cs) : c ∈ cs := by
  obtain ⟨d, hd, hbyte⟩ := List.mem_flatMap.mp h
  rcases Nat.lt_or_ge d.toNat 0x80 with hlow | hhigh
  · rw [utf8EncodeChar_ascii hlow, List.mem_singleton] at hbyte
    rwa [(ofChar_inj hc hlow).mp hbyte]
  · exact absurd rfl (ofChar_ne_of_isHigh (isHigh_of_mem hhigh _ hbyte) hc)

/-- The bytes of a text that begins with a character of ASCII. -/
theorem utf8_ascii {c : Char} (h : c.toNat < 0x80) (cs : List Char) :
    utf8 (c :: cs) = Units.ofChar c :: utf8 cs := by
  rw [utf8_cons, utf8EncodeChar_ascii h, List.singleton_append]

theorem isEscape_backslash : isEscape (Units.ofChar '\\' : UInt8) = true := rfl

theorem isEscape_ascii {c : Char} (h : c.toNat < 0x80) (hc : c ≠ '\\') :
    isEscape (Units.ofChar c : UInt8) = false := by
  rw [isEscape, beq_eq_false_iff_ne]
  exact fun heq => hc ((ofChar_inj h (by decide)).mp heq)

theorem isEscape_of_isHigh {u : UInt8} (h : IsHigh u) : isEscape u = false := by
  rw [isEscape, beq_eq_false_iff_ne]
  exact ofChar_ne_of_isHigh h (by decide)

/-- Behind an escape in bytes stands what is behind its two characters. -/
theorem drop_escape (c : Char) (cs : List Char) :
    (Units.ofChar '\\' :: utf8 (c :: cs)).drop
      (escapeLength (Units.ofChar '\\' :: utf8 (c :: cs))) = utf8 cs := by
  rw [escapeLength_utf8, utf8_cons, Nat.add_comm, List.drop_succ_cons,
    ← String.length_utf8EncodeChar, List.drop_left]

/-- Whether a search in bytes stops where one in characters does, and at ASCII characters only. -/
structure SameHit (hit : List Char → Bool) (hit' : List UInt8 → Bool) : Prop where
  ascii : ∀ c cs, c.toNat < 0x80 → hit' (utf8 (c :: cs)) = hit (c :: cs)
  chars : ∀ c cs, 0x80 ≤ c.toNat → hit (c :: cs) = false
  bytes : ∀ u us, IsHigh u → hit' (u :: us) = false

/-- The bytes of a longer character are passed over, if the search stops at none of them. -/
theorem find_high {hit : List UInt8 → Bool} (hhit : ∀ u us, IsHigh u → hit (u :: us) = false)
    {bytes : List UInt8} (hbytes : ∀ u ∈ bytes, IsHigh u) (rest : List UInt8) :
    find hit (bytes ++ rest) = (find hit rest).map (· + bytes.length) := by
  induction bytes with
  | nil => simp
  | cons u bytes ih =>
    have hu := hbytes u List.mem_cons_self
    rw [List.cons_append, find, isEscape_of_isHigh hu, if_neg Bool.false_ne_true, hhit u _ hu,
      if_neg Bool.false_ne_true, ih fun v hv => hbytes v (List.mem_cons_of_mem u hv),
      Option.map_map]
    rfl

/-- What is found some characters further back stands as many bytes further back. -/
theorem map_byteLength (front cs : List Char) (found : Option Nat) :
    (found.map fun n => byteLength (cs.take n)).map (· + byteLength front) =
      (found.map (· + front.length)).map fun n => byteLength ((front ++ cs).take n) := by
  cases found with
  | none => rfl
  | some n =>
    simp only [Option.map_some]
    rw [Nat.add_comm n, List.take_length_add_append, byteLength_append, Nat.add_comm]

theorem map_byteLength_cons {c : Char} {size : Nat} (hsize : size = c.utf8Size) (cs : List Char)
    (found : Option Nat) : (found.map fun n => byteLength (cs.take n)).map (· + size) =
      (found.map (· + 1)).map fun n => byteLength ((c :: cs).take n) := by
  subst hsize
  exact map_byteLength [c] cs found

/-- A search in bytes comes to the same place as one in characters. -/
theorem find_utf8 {hit : List Char → Bool} {hit' : List UInt8 → Bool} (h : SameHit hit hit')
    (cs : List Char) : find hit' (utf8 cs) = (find hit cs).map fun n => byteLength (cs.take n) := by
  have hnil : find hit' [] = none := by rw [find]
  induction cs using escape_induction with
  | nil => rw [find_nil, utf8, List.flatMap_nil, hnil, Option.map_none]
  | lone =>
    rw [find_lone_escape, utf8_ascii (by decide), find, isEscape_backslash, if_pos rfl]
    exact congrArg (Option.map _) hnil
  | escape c cs ih =>
    have hlength : escapeLength ((Units.ofChar '\\' : UInt8) :: utf8 (c :: cs)) =
        byteLength ['\\', c] := escapeLength_utf8 _ c cs
    rw [find_escape, utf8_ascii (by decide), find, isEscape_backslash, if_pos rfl]
    dsimp only
    rw [drop_escape, hlength]
    exact (congrArg (Option.map _) ih).trans (map_byteLength ['\\', c] cs _)
  | char c cs hc ih =>
    have hbehind {size : Nat} (hsize : size = c.utf8Size) :
        (find hit' (utf8 cs)).map (· + size) =
          ((find hit cs).map (· + 1)).map fun n => byteLength ((c :: cs).take n) :=
      (congrArg (Option.map _) ih).trans (map_byteLength_cons hsize cs _)
    rw [find_char hc]
    rcases Nat.lt_or_ge c.toNat 0x80 with hlow | hhigh
    · rw [utf8_ascii hlow, find, isEscape_ascii hlow hc, if_neg Bool.false_ne_true,
        ← utf8_ascii hlow, h.ascii c cs hlow]
      split
      · rfl
      · exact hbehind (utf8Size_ascii hlow).symm
    · rw [h.chars c cs hhigh, utf8_cons, find_high h.bytes (isHigh_of_mem hhigh),
        if_neg Bool.false_ne_true]
      exact hbehind (String.length_utf8EncodeChar c)

/-! ### Closing characters -/

/-- Nor do they open or close a pair. -/
theorem findClose_high {opening closing : Char} (hopening : opening.toNat < 0x80)
    (hclosing : closing.toNat < 0x80) {bytes : List UInt8} (hbytes : ∀ u ∈ bytes, IsHigh u)
    (depth : Nat) (rest : List UInt8) :
    findClose (Units.ofChar opening) (Units.ofChar closing) depth (bytes ++ rest) =
      (findClose (Units.ofChar opening) (Units.ofChar closing) depth rest).map
        (· + bytes.length) := by
  induction bytes with
  | nil => simp
  | cons u bytes ih =>
    have hu := hbytes u List.mem_cons_self
    rw [List.cons_append, findClose.eq_def]
    dsimp only
    rw [isEscape_of_isHigh hu, if_neg Bool.false_ne_true,
      if_neg (by simpa using ofChar_ne_of_isHigh hu hclosing),
      if_neg (by simpa using ofChar_ne_of_isHigh hu hopening),
      ih fun v hv => hbytes v (List.mem_cons_of_mem u hv), Option.map_map]
    rfl

/-- What closes a pair stands at the same place in bytes as in characters. -/
theorem findClose_utf8 {opening closing : Char} (hopening : opening.toNat < 0x80)
    (hclosing : closing.toNat < 0x80) (depth : Nat) (cs : List Char) :
    findClose (Units.ofChar opening) (Units.ofChar closing) depth (utf8 cs) =
      (findClose opening closing depth cs).map fun n => byteLength (cs.take n) := by
  have hnil (depth : Nat) :
      findClose (Units.ofChar opening : UInt8) (Units.ofChar closing) depth [] = none := by
    rw [findClose]
  induction cs using escape_induction generalizing depth with
  | nil =>
    rw [utf8, List.flatMap_nil, hnil, findClose]
    rfl
  | lone =>
    rw [findClose_lone_escape, utf8_ascii (by decide), findClose.eq_def]
    dsimp only
    rw [isEscape_backslash, if_pos rfl]
    exact congrArg (Option.map _) (hnil depth)
  | escape c cs ih =>
    have hlength : escapeLength ((Units.ofChar '\\' : UInt8) :: utf8 (c :: cs)) =
        byteLength ['\\', c] := escapeLength_utf8 _ c cs
    rw [findClose_escape, utf8_ascii (by decide), findClose.eq_def]
    dsimp only
    rw [isEscape_backslash, if_pos rfl, drop_escape, hlength]
    exact (congrArg (Option.map _) (ih depth)).trans (map_byteLength ['\\', c] cs _)
  | char c cs hc ih =>
    have hescape : isEscape c = false := by simpa [isEscape, Units.ofChar] using hc
    have hbehind {size : Nat} (hsize : size = c.utf8Size) (depth : Nat) :
        (findClose (Units.ofChar opening) (Units.ofChar closing) depth (utf8 cs)).map (· + size) =
          ((findClose opening closing depth cs).map (· + 1)).map
            fun n => byteLength ((c :: cs).take n) :=
      (congrArg (Option.map _) (ih depth)).trans (map_byteLength_cons hsize cs _)
    rw [findClose.eq_def opening]
    dsimp only
    rw [hescape, if_neg Bool.false_ne_true]
    simp only [beq_iff_eq]
    rcases Nat.lt_or_ge c.toNat 0x80 with hlow | hhigh
    · have hsize := (utf8Size_ascii hlow).symm
      rw [utf8_ascii hlow, findClose.eq_def]
      dsimp only
      rw [isEscape_ascii hlow hc, if_neg Bool.false_ne_true]
      simp only [beq_iff_eq, ofChar_inj hlow hclosing, ofChar_inj hlow hopening]
      split
      · cases depth with
        | zero =>
          rw [Option.map_some, List.take_one, List.head?_cons]
          exact congrArg some hsize
        | succ depth => exact hbehind hsize depth
      split
      · exact hbehind hsize (depth + 1)
      · exact hbehind hsize depth
    · have hne {d : Char} (hd : d.toNat < 0x80) : c ≠ d := by
        rintro rfl
        omega
      rw [utf8_cons, findClose_high hopening hclosing (isHigh_of_mem hhigh),
        if_neg (hne hclosing), if_neg (hne hopening)]
      exact hbehind (String.length_utf8EncodeChar c) depth

/-! ### What a search comes to -/

/-- What closes a pair stands inside of the bytes that are searched. -/
theorem findClose_bounds {opening closing : UInt8} {us : List UInt8} {depth n : Nat}
    (h : findClose opening closing depth us = some n) : 0 < n ∧ n ≤ us.length := by
  fun_induction findClose opening closing depth us generalizing n with
  | case1 => cases h
  | case2 depth u rest hescape =>
    rename_i ih
    obtain ⟨k, hk, rfl⟩ := Option.map_eq_some_iff.mp h
    have hbounds := ih hk
    rw [List.length_drop] at hbounds
    omega
  | case3 =>
    obtain rfl := Option.some.inj h
    simp
  | case4 | case5 | case6 =>
    rename_i ih
    obtain ⟨k, hk, rfl⟩ := Option.map_eq_some_iff.mp h
    have hbounds := ih hk
    rw [List.length_cons]
    omega

/-- The position behind a pair is further on in the text, wherever the search starts. -/
theorem Marker.stop?_bounds {opening closing : Char} {text : String} {start stop : Nat}
    (h : (Marker.paired opening closing).stop? text start = some stop) :
    start < stop ∧ stop ≤ text.utf8ByteSize := by
  rw [Marker.stop?] at h
  split at h
  · cases h
  obtain ⟨n, hn, rfl⟩ := Option.map_eq_some_iff.mp h
  have hbounds : 0 < n ∧ n ≤ ((utf8 text.toList).drop start).length := by
    generalize (utf8 text.toList).drop start = us at hn
    rcases us with _ | ⟨u, rest⟩
    · cases hn
    rw [Marker.lengthAt?] at hn
    split at hn
    · obtain ⟨k, hk, rfl⟩ := Option.map_eq_some_iff.mp hn
      have hinside := findClose_bounds hk
      rw [List.length_cons]
      omega
    · cases hn
  rw [List.length_drop, length_utf8, ← utf8ByteSize_eq] at hbounds
  omega

/-! ### Searching from a position -/

theorem sameHit_startsWithOneOf (set : List Char) :
    SameHit (startsWithOneOf set) (startsWithOneOf set) := by
  refine ⟨fun c cs hc => ?_, fun c cs hc => ?_, fun u us hu => ?_⟩
  · rw [utf8_ascii hc, startsWithOneOf, startsWithOneOf]
    congr 1
    funext d
    rcases Nat.lt_or_ge d.toNat 0x80 with hd | hd
    · have hsame : (Units.ofChar c == (Units.ofChar d : UInt8)) = (c == d) := by
        rw [Bool.eq_iff_iff, beq_iff_eq, beq_iff_eq]
        exact ofChar_inj hc hd
      rw [hsame]
      rfl
    · simp [Nat.not_lt_of_le hd]
  · rw [startsWithOneOf, List.any_eq_false]
    rintro d - hhit
    obtain ⟨hd, heq⟩ := Bool.and_eq_true_iff.mp hhit
    obtain rfl : c = d := beq_iff_eq.mp heq
    exact Nat.not_lt_of_le hc (of_decide_eq_true hd)
  · rw [startsWithOneOf, List.any_eq_false]
    rintro d - hhit
    obtain ⟨hd, heq⟩ := Bool.and_eq_true_iff.mp hhit
    exact ofChar_ne_of_isHigh hu (of_decide_eq_true hd) (beq_iff_eq.mp heq)

namespace At

variable {text : String} {pos : Nat} {behind : List Char}

/-- The position of the first character of a set. -/
theorem firstOf?_eq (h : At text pos behind) (set : List Char) : firstOf? set text pos =
    (find (startsWithOneOf set) behind).map fun n => pos + byteLength (behind.take n) := by
  rw [firstOf?, h.drop_utf8, find_utf8 (sameHit_startsWithOneOf set), Option.map_map]
  exact congrArg (Option.map · _) (funext fun n => Nat.add_comm _ _)

/-- The position behind a pair. -/
theorem stop?_eq (h : At text pos behind) {opening closing : Char} (hopening : opening.toNat < 0x80)
    (hclosing : closing.toNat < 0x80) : (Marker.paired opening closing).stop? text pos =
      ((Marker.paired opening closing).lengthAt? behind).map
        fun n => pos + byteLength (behind.take n) := by
  have hinside : ¬ (utf8 text.toList).length < pos := by
    have hle := h.le
    rw [utf8ByteSize_eq, ← length_utf8] at hle
    omega
  have hlength : (Marker.paired opening closing).lengthAt? (utf8 behind) =
      ((Marker.paired opening closing).lengthAt? behind).map
        fun n => byteLength (behind.take n) := by
    rcases behind with _ | ⟨c, cs⟩
    · rfl
    have hchars : (Marker.paired opening closing).lengthAt? (c :: cs) =
        if c = opening then (findClose opening closing 0 cs).map (· + 1) else none := by
      simp only [Marker.lengthAt?, beq_iff_eq]
      rfl
    have hbytes (u : UInt8) (us : List UInt8) :
        (Marker.paired opening closing).lengthAt? (u :: us) = if u = Units.ofChar opening then
          (findClose (Units.ofChar opening) (Units.ofChar closing) 0 us).map (· + 1)
        else none := by
      simp only [Marker.lengthAt?, beq_iff_eq]
    rw [hchars]
    rcases Nat.lt_or_ge c.toNat 0x80 with hlow | hhigh
    · rw [utf8_ascii hlow, hbytes]
      simp only [ofChar_inj hlow hopening]
      split
      · rw [findClose_utf8 hopening hclosing]
        exact map_byteLength_cons (utf8Size_ascii hlow).symm cs _
      · rfl
    · obtain ⟨u, more, heq, -⟩ := sequenceLength_head c
      have hu : IsHigh u := isHigh_of_mem hhigh u (heq ▸ List.mem_cons_self)
      have hc : ¬ c = opening := by
        rintro rfl
        omega
      rw [utf8_cons, heq, List.cons_append, hbytes, if_neg (ofChar_ne_of_isHigh hu hopening),
        if_neg hc]
      rfl
  rw [Marker.stop?, if_neg hinside, h.drop_utf8, hlength, Option.map_map]
  exact congrArg (Option.map · _) (funext fun n => Nat.add_comm _ _)

/-- No position is found where no pair begins, or it is not closed. -/
theorem stop?_eq_none (h : At text pos behind) {opening closing : Char}
    (hopening : opening.toNat < 0x80) (hclosing : closing.toNat < 0x80)
    (hlength : (Marker.paired opening closing).lengthAt? behind = none) :
    (Marker.paired opening closing).stop? text pos = none :=
  (h.stop?_eq hopening hclosing).trans (congrArg (Option.map _) hlength)

/-- A pair stands where the search for its end finds one, with what is inside and what is behind. -/
theorem exists_pair (h : At text pos behind) {opening closing : Char} {n : Nat}
    (hopening : opening.toNat < 0x80) (hclosing : closing.toNat < 0x80)
    (hlength : (Marker.paired opening closing).lengthAt? behind = some n) :
    ∃ inside rest, behind = opening :: (inside ++ closing :: rest) ∧ n = inside.length + 2 ∧
      (Marker.paired opening closing).stop? text pos = some (pos + byteLength inside + 2) ∧
      At text (pos + byteLength inside + 2) rest := by
  have hstop := h.stop?_eq hopening hclosing
  obtain ⟨inside, rest, rfl, rfl⟩ := Marker.lengthAt?_split hlength
  have hrest : At text (pos + byteLength inside + 2) rest := by
    have hnext := h.next.append.next
    rw [utf8Size_ascii hopening, utf8Size_ascii hclosing] at hnext
    rwa [show pos + byteLength inside + 2 = pos + 1 + byteLength inside + 1 by omega]
  have htake : byteLength ((opening :: (inside ++ closing :: rest)).take (inside.length + 2)) =
      byteLength inside + 2 := by
    rw [List.take_succ_cons, List.take_length_add_append, byteLength_cons, byteLength_append,
      utf8Size_ascii hopening, List.take_succ_cons, List.take_zero, byteLength_cons,
      utf8Size_ascii hclosing, byteLength_nil]
    omega
  refine ⟨inside, rest, rfl, rfl, ?_, hrest⟩
  rw [hstop, hlength, Option.map_some, htake, Nat.add_assoc]

end At

end Gamebook.Text
