import Gamebook.Proofs.Text.Bytes
import Gamebook.Proofs.Text.Parity
import Mathlib.Order.Bounds.Image

/-!
# Bare marks

A search goes over the bytes of a text from its start on, and jumps over whole escaped characters.
Where it stops can be told without it: a mark stands *bare* at a position if an even number of
backslashes stand directly in front of it, of which none in front of the start counts. Every search
comes to the least position at which one of its marks stands bare, and to none only if there is no
such position (`Text.start?_isFirst`, `Text.firstOf?_isFirst`). This is a position between two
characters wherever the search itself starts between two (`Text.boundary_of_mem_barePositions`).
-/

namespace Gamebook.Text

/-! ### What a search comes to -/

/-- Whether a search came to the least of some places, or to none as there are none. -/
structure IsFirst (places : Set Nat) (found : Option Nat) : Prop where
  eq_some_iff (place : Nat) : found = some place ↔ IsLeast places place
  eq_none_iff : found = none ↔ places = ∅

namespace IsFirst

variable {places : Set Nat}

theorem of_isLeast {place : Nat} (h : IsLeast places place) : IsFirst places (some place) where
  eq_some_iff other := by
    refine ⟨fun heq => Option.some.inj heq ▸ h, fun hother => ?_⟩
    rw [h.unique hother]
  eq_none_iff :=
    iff_of_false (Option.some_ne_none place) (Set.nonempty_iff_ne_empty.mp ⟨place, h.1⟩)

theorem of_eq_empty (h : places = ∅) : IsFirst places none where
  eq_some_iff place := iff_of_false (Option.some_ne_none place).symm fun hleast => by
    rw [h] at hleast
    exact hleast.1
  eq_none_iff := iff_of_true rfl h

/-- The first of some places stays the first when all of them are moved and none overtakes. -/
theorem map {found : Option Nat} (h : IsFirst places found) {move : Nat → Nat}
    (hmove : Monotone move) : IsFirst (move '' places) (found.map move) := by
  cases found with
  | none => exact of_eq_empty (by rw [h.eq_none_iff.mp rfl, Set.image_empty])
  | some place => exact of_isLeast (hmove.map_isLeast ((h.eq_some_iff place).mp rfl))

end IsFirst

/-- Places of which none is in front of a part of the text are those of the part, moved behind
it. -/
theorem eq_image_add {places later : Set Nat} (k : Nat) (hfront : ∀ n < k, n ∉ places)
    (hbehind : ∀ n, n + k ∈ places ↔ n ∈ later) : places = (· + k) '' later := by
  ext n
  constructor
  · intro hn
    have hle : k ≤ n := Nat.le_of_not_lt fun hlt => hfront n hlt hn
    obtain ⟨m, rfl⟩ := Nat.exists_eq_add_of_le' hle
    exact ⟨m, (hbehind m).mp hn, rfl⟩
  · rintro ⟨m, hm, rfl⟩
    exact (hbehind m).mpr hm

/-! ### Searching in characters -/

/-- The places at which a search may stop: those with no escape open in front of them. -/
def barePlaces (hit : List Char → Bool) (cs : List Char) : Set Nat :=
  {place | hit (cs.drop place) = true ∧ Masked (fun _ => True) (cs.take place)}

section Places

variable {hit : List Char → Bool}

theorem barePlaces_escape (hescape : ∀ rest, hit ('\\' :: rest) = false) (c : Char)
    (cs : List Char) : barePlaces hit ('\\' :: c :: cs) = (· + 2) '' barePlaces hit cs := by
  refine eq_image_add 2 (fun place hlt => ?_) fun place =>
    and_congr_right' (Masked.escape_iff c (cs.take place))
  rintro ⟨hhit, hmasked⟩
  -- the search cannot stop at the backslash, nor at the character that it hides
  match place with
  | 0 => exact absurd hhit (by rw [List.drop_zero, hescape]; exact Bool.false_ne_true)
  | 1 => exact absurd hmasked Masked.not_lone

theorem barePlaces_char {c : Char} (hc : c ≠ '\\') {cs : List Char} (hhit : hit (c :: cs) = false) :
    barePlaces hit (c :: cs) = (· + 1) '' barePlaces hit cs := by
  refine eq_image_add 1 (fun place hlt => ?_) fun place =>
    and_congr_right' (Masked.char_iff hc (cs.take place))
  rintro ⟨hhere, -⟩
  obtain rfl : place = 0 := Nat.lt_one_iff.mp hlt
  exact absurd hhere (by rw [List.drop_zero, hhit]; exact Bool.false_ne_true)

/-- A search that stops at no backslash comes to the first place at which it may stop. -/
theorem find_isFirst (hnil : hit [] = false) (hescape : ∀ rest, hit ('\\' :: rest) = false)
    (cs : List Char) : IsFirst (barePlaces hit cs) (find hit cs) := by
  induction cs using escape_induction with
  | nil =>
    rw [find_nil]
    refine .of_eq_empty (Set.eq_empty_of_forall_notMem ?_)
    rintro place ⟨hhit, -⟩
    rw [List.drop_nil, hnil] at hhit
    exact Bool.false_ne_true hhit
  | lone =>
    rw [find_lone_escape]
    refine .of_eq_empty (Set.eq_empty_of_forall_notMem ?_)
    rintro (_ | place) ⟨hhit, -⟩
    · exact Bool.false_ne_true ((hescape []).symm.trans hhit)
    · rw [List.drop_succ_cons, List.drop_nil, hnil] at hhit
      exact Bool.false_ne_true hhit
  | escape c cs ih =>
    rw [find_escape, barePlaces_escape hescape]
    exact ih.map fun _ _ hle => Nat.add_le_add_right hle 2
  | char c cs hc ih =>
    rw [find_char hc]
    split
    next hhit => exact .of_isLeast ⟨⟨hhit, .nil⟩, fun place _ => Nat.zero_le place⟩
    next hhit =>
      rw [barePlaces_char hc (Bool.not_eq_true _ ▸ hhit)]
      exact ih.map fun _ _ hle => Nat.add_le_add_right hle 1

end Places

/-! ### Marks -/

/-- A mark that a search can look for: a text of ASCII that begins with no backslash. -/
structure IsMark (mark : List Char) : Prop where
  ascii : ∀ c ∈ mark, c.toNat < 0x80
  ne_nil : mark ≠ []
  head_ne : mark.head? ≠ some '\\'

instance (mark : List Char) : Decidable (IsMark mark) :=
  decidable_of_iff (mark.all (·.toNat < 0x80) ∧ mark ≠ [] ∧ mark.head? ≠ some '\\')
    ⟨fun ⟨hascii, hnil, hhead⟩ => ⟨by simpa using hascii, hnil, hhead⟩,
      fun h => ⟨by simpa using h.ascii, h.ne_nil, h.head_ne⟩⟩

/-- What has to stand where a marker starts: of a pair, the character that opens it. -/
def Marker.sought : Marker → List Char
  | single c => [c]
  | wide text => text
  | paired opening _ => [opening]

/-- The characters of ASCII of a set, each a mark of its own. -/
def asciiMarks (set : List Char) : Set (List Char) :=
  {mark | ∃ c ∈ set, c.toNat < 0x80 ∧ mark = [c]}

theorem isMark_of_mem_asciiMarks {set : List Char} (hset : '\\' ∉ set) {mark : List Char}
    (hmark : mark ∈ asciiMarks set) : IsMark mark := by
  obtain ⟨c, hc, hascii, rfl⟩ := hmark
  refine ⟨fun d hd => List.mem_singleton.mp hd ▸ hascii, List.cons_ne_nil c [], fun hhead => ?_⟩
  exact hset (Option.some.inj hhead ▸ hc)

/-- Whether one of some marks stands at the front of a text, in characters or in bytes. -/
def StandsFirst {α : Type} [Units α] (marks : Set (List Char)) (us : List α) : Prop :=
  ∃ mark ∈ marks, Units.encode mark <+: us

namespace IsMark

variable {mark : List Char}

theorem exists_cons (h : IsMark mark) : ∃ c rest, mark = c :: rest ∧ c.toNat < 0x80 ∧ c ≠ '\\' := by
  obtain ⟨c, rest, rfl⟩ := List.exists_cons_of_ne_nil h.ne_nil
  refine ⟨c, rest, rfl, h.ascii c List.mem_cons_self, ?_⟩
  rintro rfl
  exact h.head_ne rfl

end IsMark

/-- A text of ASCII begins a text exactly if its bytes begin the bytes of the other. -/
theorem utf8_prefix_iff {mark : List Char} (hmark : ∀ c ∈ mark, c.toNat < 0x80) (cs : List Char) :
    utf8 mark <+: utf8 cs ↔ mark <+: cs := by
  induction mark generalizing cs with
  | nil => exact iff_of_true List.nil_prefix List.nil_prefix
  | cons d mark ih =>
    have hd : d.toNat < 0x80 := hmark d List.mem_cons_self
    rw [utf8_ascii hd]
    rcases cs with _ | ⟨c, cs⟩
    · exact iff_of_false (fun h => List.cons_ne_nil _ _ (List.prefix_nil.mp h))
        fun h => List.cons_ne_nil _ _ (List.prefix_nil.mp h)
    rcases Nat.lt_or_ge c.toNat 0x80 with hlow | hhigh
    · rw [utf8_ascii hlow, List.cons_prefix_cons, List.cons_prefix_cons, ofChar_inj hd hlow,
        ih fun e he => hmark e (List.mem_cons_of_mem d he)]
    · obtain ⟨u, more, heq, -⟩ := sequenceLength_head c
      have hu : IsHigh u := isHigh_of_mem hhigh u (heq ▸ List.mem_cons_self)
      rw [utf8_cons, heq, List.cons_append, List.cons_prefix_cons, List.cons_prefix_cons]
      refine iff_of_false (fun h => ofChar_ne_of_isHigh hu hd h.1.symm) fun h => ?_
      obtain rfl : d = c := h.1
      exact Nat.not_lt_of_le hhigh hd

/-- What stops at marks in characters and in bytes stops at the same ones in both. -/
theorem sameHit_of_marks {marks : Set (List Char)} (hmarks : ∀ mark ∈ marks, IsMark mark)
    {hit : List Char → Bool} {hit' : List UInt8 → Bool}
    (hchars : ∀ cs, hit cs = true ↔ StandsFirst marks cs)
    (hbytes : ∀ us, hit' us = true ↔ StandsFirst marks us) : SameHit hit hit' := by
  refine ⟨fun c cs _ => ?_, fun c cs hc => ?_, fun u us hu => ?_⟩
  · rw [Bool.eq_iff_iff, hchars, hbytes]
    exact exists_congr fun mark => and_congr_right fun hmark =>
      utf8_prefix_iff (hmarks mark hmark).ascii (c :: cs)
  · rw [← Bool.not_eq_true, hchars]
    rintro ⟨mark, hmark, hprefix⟩
    obtain ⟨d, rest, rfl, hd, -⟩ := (hmarks mark hmark).exists_cons
    obtain rfl : d = c := (List.cons_prefix_cons.mp hprefix).1
    exact Nat.not_lt_of_le hc hd
  · rw [← Bool.not_eq_true, hbytes]
    rintro ⟨mark, hmark, hprefix⟩
    obtain ⟨d, rest, rfl, hd, -⟩ := (hmarks mark hmark).exists_cons
    change utf8 (d :: rest) <+: u :: us at hprefix
    rw [utf8_ascii hd] at hprefix
    exact ofChar_ne_of_isHigh hu hd (List.cons_prefix_cons.mp hprefix).1.symm

section Stops

variable {α : Type} [BEq α] [LawfulBEq α]

theorem head?_any_iff (u : α) (us : List α) : us.head?.any (· == u) = true ↔ [u] <+: us := by
  cases us with
  | nil =>
    exact iff_of_false Bool.false_ne_true fun h => List.cons_ne_nil u [] (List.prefix_nil.mp h)
  | cons v us =>
    rw [List.cons_prefix_cons, List.head?_cons, Option.any_some, beq_iff_eq]
    exact ⟨fun h => ⟨h.symm, List.nil_prefix⟩, fun h => h.1.symm⟩

variable [Units α]

/-- A search for a marker stops where the marker, or what opens it, stands. -/
theorem Marker.startsAt_iff {m : Marker}
    (hencode : ∀ c ∈ m.sought, Units.encode [c] = [(Units.ofChar c : α)]) (us : List α) :
    m.startsAt us = true ↔ StandsFirst {m.sought} us := by
  have hone {c : Char} (hc : Units.encode [c] = [(Units.ofChar c : α)]) :
      us.head?.any (· == Units.ofChar c) = true ↔ Units.encode [c] <+: us := by
    rw [head?_any_iff, hc]
  rw [StandsFirst]
  simp only [Set.mem_singleton_iff, exists_eq_left]
  cases m with
  | single c => exact hone (hencode c List.mem_cons_self)
  | wide text => exact List.isPrefixOf_iff_prefix
  | paired opening closing => exact hone (hencode opening List.mem_cons_self)

/-- A search for one of some characters stops where one of them stands. -/
theorem startsWithOneOf_iff {set : List Char}
    (hencode : ∀ c ∈ set, c.toNat < 0x80 → Units.encode [c] = [(Units.ofChar c : α)])
    (us : List α) : startsWithOneOf set us = true ↔ StandsFirst (asciiMarks set) us := by
  cases us with
  | nil =>
    refine iff_of_false Bool.false_ne_true ?_
    rintro ⟨_, ⟨c, hc, hascii, rfl⟩, hprefix⟩
    rw [hencode c hc hascii, List.prefix_nil] at hprefix
    exact List.cons_ne_nil _ _ hprefix
  | cons u us =>
    rw [startsWithOneOf, List.any_eq_true]
    constructor
    · rintro ⟨c, hc, hhit⟩
      obtain ⟨hascii, heq⟩ := Bool.and_eq_true_iff.mp hhit
      have hascii := of_decide_eq_true hascii
      refine ⟨[c], ⟨c, hc, hascii, rfl⟩, ?_⟩
      rw [hencode c hc hascii, eq_of_beq heq]
      exact List.cons_prefix_cons.mpr ⟨rfl, List.nil_prefix⟩
    · rintro ⟨_, ⟨c, hc, hascii, rfl⟩, hprefix⟩
      rw [hencode c hc hascii, List.cons_prefix_cons] at hprefix
      exact ⟨c, hc, Bool.and_eq_true_iff.mpr ⟨decide_eq_true hascii, beq_iff_eq.mpr hprefix.1.symm⟩⟩

end Stops

theorem encode_ascii {c : Char} (h : c.toNat < 0x80) :
    Units.encode [c] = [(Units.ofChar c : UInt8)] :=
  utf8_ascii h []

/-! ### Positions in bytes -/

/-- The number of backslashes that stand directly in front of a position, of which none in front of
the start of the search counts. -/
def backslashesBefore (text : String) (start pos : Nat) : Nat :=
  ((((utf8 text.toList).take pos).drop start).reverse.takeWhile isEscape).length

/-- The positions at which one of some marks stands with no backslash in front that hides it. -/
def barePositions (text : String) (start : Nat) (marks : Set (List Char)) : Set Nat :=
  {pos | start ≤ pos ∧ StandsFirst marks ((utf8 text.toList).drop pos) ∧
    Even (backslashesBefore text start pos)}

/-- The backslashes at the end of a text are those at the end of its bytes. -/
theorem backslashes_utf8 (cs : List Char) :
    ((utf8 cs).reverse.takeWhile isEscape).length = backslashes cs := by
  induction cs using List.reverseRec with
  | nil => rfl
  | append_singleton cs c ih =>
    have hsplit : utf8 (cs ++ [c]) = utf8 cs ++ String.utf8EncodeChar c := by
      rw [utf8_append, utf8_cons]
      exact congrArg _ (List.append_nil _)
    rw [backslashes_concat, hsplit]
    rcases Nat.lt_or_ge c.toNat 0x80 with hlow | hhigh
    · rw [utf8EncodeChar_ascii hlow, List.reverse_concat, List.takeWhile_cons]
      by_cases hc : c = '\\'
      · subst hc
        rw [isEscape_backslash, if_pos rfl, if_pos rfl, List.length_cons, ih]
      · rw [isEscape_ascii hlow hc, if_neg Bool.false_ne_true, if_neg hc]
        rfl
    · have hc : c ≠ '\\' := by
        rintro rfl
        exact absurd hhigh (by decide)
      obtain ⟨u, more, heq, -⟩ := sequenceLength_head c
      have hne : String.utf8EncodeChar c ≠ [] := heq ▸ List.cons_ne_nil u more
      obtain ⟨init, last, hlast⟩ := (List.eq_nil_or_concat _).resolve_left hne
      rw [List.concat_eq_append] at hlast
      have hhighLast : IsHigh last := isHigh_of_mem hhigh last (by simp [hlast])
      rw [hlast, ← List.append_assoc, List.reverse_concat, List.takeWhile_cons,
        isEscape_of_isHigh hhighLast, if_neg Bool.false_ne_true, if_neg hc]
      rfl

theorem monotone_byteLength_take (cs : List Char) : Monotone fun n => byteLength (cs.take n) := by
  intro m n hle
  have hsplit := congrArg byteLength (List.take_append_drop m (cs.take n))
  rw [List.take_take, Nat.min_eq_left hle, byteLength_append] at hsplit
  exact Nat.le.intro hsplit

/-- A byte of ASCII stands where a character begins. -/
theorem exists_take_of_drop_utf8 {cs : List Char} {pos : Nat} {u : UInt8} {rest : List UInt8}
    (hdrop : (utf8 cs).drop pos = u :: rest) (hu : ¬ IsHigh u) :
    ∃ n, pos = byteLength (cs.take n) := by
  induction cs generalizing pos with
  | nil => simp [utf8] at hdrop
  | cons c cs ih =>
    rcases Nat.eq_zero_or_pos pos with rfl | hpos
    · exact ⟨0, rfl⟩
    rw [utf8_cons, List.drop_append] at hdrop
    rw [String.length_utf8EncodeChar] at hdrop
    rcases Nat.lt_or_ge pos c.utf8Size with hinside | hbehind
    · -- the byte would be one of a character that has several, and all of these are high
      have hne : (String.utf8EncodeChar c).drop pos ≠ [] := by
        rw [Ne, List.drop_eq_nil_iff, String.length_utf8EncodeChar]
        omega
      obtain ⟨v, more, hv⟩ := List.exists_cons_of_ne_nil hne
      rw [hv, List.cons_append] at hdrop
      obtain rfl : v = u := (List.cons.inj hdrop).1
      have hmem : v ∈ String.utf8EncodeChar c :=
        List.mem_of_mem_drop (hv ▸ List.mem_cons_self : v ∈ (String.utf8EncodeChar c).drop pos)
      rcases Nat.lt_or_ge c.toNat 0x80 with hlow | hhigh
      · have hsize := utf8Size_ascii hlow
        omega
      · exact absurd (isHigh_of_mem hhigh v hmem) hu
    · rw [List.drop_eq_nil_of_le (by rwa [String.length_utf8EncodeChar]), List.nil_append] at hdrop
      obtain ⟨n, hn⟩ := ih hdrop
      refine ⟨n + 1, ?_⟩
      rw [List.take_succ_cons, byteLength_cons]
      omega

/-- A character of ASCII stands where its byte does. -/
theorem exists_at_of_getElem? {text : String} {pos : Nat} {c : Char} (hc : c.toNat < 0x80)
    (h : (utf8 text.toList)[pos]? = some (Units.ofChar c)) : ∃ rest, At text pos (c :: rest) := by
  have hlow : ¬ IsHigh (Units.ofChar c : UInt8) := fun hhigh => ofChar_ne_of_isHigh hhigh hc rfl
  obtain ⟨hlt, hbyte⟩ := List.getElem?_eq_some_iff.mp h
  have hdrop := List.drop_eq_getElem_cons hlt
  rw [hbyte] at hdrop
  obtain ⟨n, hn⟩ := exists_take_of_drop_utf8 hdrop hlow
  have hat := (At.start text).drop n
  rw [Nat.zero_add, ← hn] at hat
  rw [hat.drop_utf8] at hdrop
  cases hrest : text.toList.drop n with
  | nil =>
    rw [hrest] at hdrop
    cases hdrop
  | cons d rest =>
    rw [hrest] at hat hdrop
    have hd : d.toNat < 0x80 := by
      by_contra hhigh
      obtain ⟨u, more, heq, -⟩ := sequenceLength_head d
      rw [utf8_cons, heq, List.cons_append] at hdrop
      exact hlow ((List.cons.inj hdrop).1 ▸
        isHigh_of_mem (Nat.le_of_not_lt hhigh) u (heq ▸ List.mem_cons_self))
    rw [utf8_ascii hd] at hdrop
    rw [(ofChar_inj hd hc).mp (List.cons.inj hdrop).1] at hat
    exact ⟨rest, hat⟩

namespace At

variable {text : String} {start : Nat} {behind : List Char}

/-- Between the start and a position so many characters further on stand the bytes of these. -/
theorem backslashesBefore_eq (h : At text start behind) (n : Nat) :
    backslashesBefore text start (start + byteLength (behind.take n)) =
      backslashes (behind.take n) := by
  rw [backslashesBefore, List.drop_take, h.drop_utf8, Nat.add_sub_cancel_left, ← backslashes_utf8]
  congr 3
  have hsplit : utf8 behind = utf8 (behind.take n) ++ utf8 (behind.drop n) := by
    rw [← utf8_append, List.take_append_drop]
  rw [hsplit, ← length_utf8, List.take_left]

/-- The positions at which a mark stands bare are those of the places at which a search in
characters may stop. -/
theorem barePositions_eq (h : At text start behind) {marks : Set (List Char)}
    (hmarks : ∀ mark ∈ marks, IsMark mark) {hit : List Char → Bool}
    (hhit : ∀ cs, hit cs = true ↔ StandsFirst marks cs) : barePositions text start marks =
      (fun n => start + byteLength (behind.take n)) '' barePlaces hit behind := by
  have hstands (n : Nat) :
      StandsFirst marks ((utf8 text.toList).drop (start + byteLength (behind.take n))) ↔
        hit (behind.drop n) = true := by
    rw [(h.drop n).drop_utf8, hhit]
    exact exists_congr fun mark => and_congr_right fun hmark =>
      utf8_prefix_iff (hmarks mark hmark).ascii (behind.drop n)
  have heven (n : Nat) : Even (backslashesBefore text start (start + byteLength (behind.take n))) ↔
      Masked (fun _ => True) (behind.take n) := by
    rw [h.backslashesBefore_eq, masked_iff_even]
  ext pos
  constructor
  · rintro ⟨hle, hstand, hhide⟩
    obtain ⟨n, rfl⟩ : ∃ n, pos = start + byteLength (behind.take n) := by
      obtain ⟨mark, hmark, more, hmore⟩ := hstand
      obtain ⟨c, rest, rfl, hascii, -⟩ := (hmarks mark hmark).exists_cons
      have hdrop : (utf8 behind).drop (pos - start) = Units.ofChar c :: (utf8 rest ++ more) := by
        rw [← h.drop_utf8, List.drop_drop, Nat.add_sub_cancel' hle, ← hmore, ← List.cons_append,
          ← utf8_ascii hascii]
        rfl
      obtain ⟨n, hn⟩ := exists_take_of_drop_utf8 hdrop
        fun hhigh => ofChar_ne_of_isHigh hhigh hascii rfl
      exact ⟨n, by omega⟩
    exact ⟨n, ⟨(hstands n).mp hstand, (heven n).mp hhide⟩, rfl⟩
  · rintro ⟨n, ⟨hstop, hmasked⟩, rfl⟩
    exact ⟨Nat.le_add_right start _, (hstands n).mpr hstop, (heven n).mpr hmasked⟩

/-- A search in bytes that stops at marks comes to the first of those that stand bare. -/
theorem find_isFirst (h : At text start behind) {marks : Set (List Char)}
    (hmarks : ∀ mark ∈ marks, IsMark mark) {hit : List Char → Bool} {hit' : List UInt8 → Bool}
    (hchars : ∀ cs, hit cs = true ↔ StandsFirst marks cs)
    (hbytes : ∀ us, hit' us = true ↔ StandsFirst marks us) :
    IsFirst (barePositions text start marks)
      ((find hit' ((utf8 text.toList).drop start)).map (· + start)) := by
  have hstop {cs : List Char} (hcs : cs.head?.all (· = '\\') = true) : hit cs = false := by
    rw [← Bool.not_eq_true, hchars]
    rintro ⟨mark, hmark, hprefix⟩
    obtain ⟨c, rest, rfl, -, hc⟩ := (hmarks mark hmark).exists_cons
    obtain ⟨more, rfl⟩ := hprefix
    exact hc (of_decide_eq_true hcs)
  have hmono : Monotone fun n => start + byteLength (behind.take n) := fun _ _ hle =>
    Nat.add_le_add_left (monotone_byteLength_take behind hle) start
  have hfirst := (Text.find_isFirst (hstop rfl) (fun _ => hstop rfl) behind).map hmono
  rw [h.barePositions_eq hmarks hchars, h.drop_utf8,
    find_utf8 (sameHit_of_marks hmarks hchars hbytes), Option.map_map]
  convert hfirst using 2
  exact funext fun n => Nat.add_comm _ _

end At

/-! ### All searches -/

section Searches

variable {text : String} {start : Nat}

/-- A bare mark stands between two characters. -/
theorem boundary_of_mem_barePositions (hstart : Boundary text start) {marks : Set (List Char)}
    (hmarks : ∀ mark ∈ marks, IsMark mark) {pos : Nat}
    (hpos : pos ∈ barePositions text start marks) : Boundary text pos := by
  classical
  obtain ⟨behind, h⟩ := hstart.exists_at
  rw [h.barePositions_eq hmarks fun cs => decide_eq_true_iff (p := StandsFirst marks cs)] at hpos
  obtain ⟨n, -, rfl⟩ := hpos
  exact (h.drop n).boundary

/-- A search for a marker comes to the first position at which it stands bare. -/
theorem start?_isFirst (hstart : Boundary text start) {m : Marker} (hm : IsMark m.sought) :
    IsFirst (barePositions text start {m.sought}) (m.start? text start) := by
  obtain ⟨behind, h⟩ := hstart.exists_at
  refine h.find_isFirst (fun mark hmark => ?_) (Marker.startsAt_iff fun _ _ => rfl)
    (Marker.startsAt_iff fun c hc => encode_ascii (hm.ascii c hc))
  rwa [Set.mem_singleton_iff.mp hmark]

/-- A search for one of some characters comes to the first position at which one stands bare. -/
theorem firstOf?_isFirst (hstart : Boundary text start) {set : List Char} (hset : '\\' ∉ set) :
    IsFirst (barePositions text start (asciiMarks set)) (firstOf? set text start) := by
  obtain ⟨behind, h⟩ := hstart.exists_at
  exact h.find_isFirst (fun _ => isMark_of_mem_asciiMarks hset)
    (startsWithOneOf_iff fun _ _ _ => rfl) (startsWithOneOf_iff fun _ _ => encode_ascii)

/-- All searches share one notion of escaping. From a position between two characters, each comes to
the least position, from there on, at which what it looks for stands behind an even number of
backslashes, and to none exactly if there is no such position; and the position is again one
between two characters. -/
theorem searches_share_escapes (hstart : Boundary text start) :
    (∀ m : Marker, IsMark m.sought →
      (∀ pos, m.start? text start = some pos ↔
        IsLeast (barePositions text start {m.sought}) pos) ∧
      (m.start? text start = none ↔ barePositions text start {m.sought} = ∅) ∧
      ∀ pos, m.start? text start = some pos → Boundary text pos) ∧
    ∀ set : List Char, '\\' ∉ set →
      (∀ pos, firstOf? set text start = some pos ↔
        IsLeast (barePositions text start (asciiMarks set)) pos) ∧
      (firstOf? set text start = none ↔ barePositions text start (asciiMarks set) = ∅) ∧
      ∀ pos, firstOf? set text start = some pos → Boundary text pos := by
  constructor
  · intro m hm
    have hfirst := start?_isFirst hstart hm
    refine ⟨hfirst.eq_some_iff, hfirst.eq_none_iff, fun pos hpos => ?_⟩
    refine boundary_of_mem_barePositions hstart (fun mark hmark => ?_)
      ((hfirst.eq_some_iff pos).mp hpos).1
    rwa [Set.mem_singleton_iff.mp hmark]
  · intro set hset
    have hfirst := firstOf?_isFirst hstart hset
    refine ⟨hfirst.eq_some_iff, hfirst.eq_none_iff, fun pos hpos => ?_⟩
    exact boundary_of_mem_barePositions hstart (fun _ => isMark_of_mem_asciiMarks hset)
      ((hfirst.eq_some_iff pos).mp hpos).1

/-- In a text with characters of several bytes, `//` behind two backslashes is found, and the
quotation mark behind one is not; that in front of the start does not count. -/
theorem searches_share_escapes_accented :
    Boundary "\"é\\\\//é\\\"" 1 ∧
      Marker.comment.start? "\"é\\\\//é\\\"" 1 = some 5 ∧
      firstOf? ['"', ')'] "\"é\\\\//é\\\"" 1 = none ∧
      IsLeast (barePositions "\"é\\\\//é\\\"" 1 {Marker.comment.sought}) 5 ∧
      barePositions "\"é\\\\//é\\\"" 1 (asciiMarks ['"', ')']) = ∅ := by
  have hstart : Boundary "\"é\\\\//é\\\"" 1 := by decide
  have hcomment : Marker.comment.start? "\"é\\\\//é\\\"" 1 = some 5 := by decide +kernel
  have hnone : firstOf? ['"', ')'] "\"é\\\\//é\\\"" 1 = none := by decide +kernel
  have hshare := searches_share_escapes hstart
  exact ⟨hstart, hcomment, hnone, ((hshare.1 Marker.comment (by decide)).1 5).mp hcomment,
    (hshare.2 ['"', ')'] (by decide)).2.1.mp hnone⟩

end Searches

end Gamebook.Text
