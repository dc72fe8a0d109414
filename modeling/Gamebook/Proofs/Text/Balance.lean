import Gamebook.Proofs.Text.Bare

/-!
# Where pairs end

A search for what closes a pair counts how deep it is. Where it comes to can be told without a
depth, from two counts of bare characters: the pair ends where the text has, for the first time
behind its opening character, closed as often as it has opened (`Text.At.stop?_isFirst`). Up to
there it has always opened more often, as the two counts draw nearer by one at a time and cannot
pass each other (`Text.bareCount_lt_of_isLeast`). If one character both opens and closes the pair,
there is nothing to count: it ends behind the next bare one (`Text.At.stop?_same_isFirst`).

What stands behind the end of a pair has no part in it (`Text.stop?_append`).
-/

namespace Gamebook.Text

/-! ### Bare characters -/

/-- How often a character stands bare in a text: with an even number of backslashes directly in
front of it. -/
def bareCount (c : Char) (cs : List Char) : Nat :=
  (List.range cs.length).countP fun n => cs[n]? = some c ∧ Even (backslashes (cs.take n))

section Count

variable {c d : Char}

theorem bareCount_nil (c : Char) : bareCount c [] = 0 := rfl

theorem bareCount_concat (c d : Char) (cs : List Char) : bareCount c (cs ++ [d]) =
    bareCount c cs + if d = c ∧ Even (backslashes cs) then 1 else 0 := by
  have hfront : ∀ n ∈ List.range cs.length,
      (decide ((cs ++ [d])[n]? = some c ∧ Even (backslashes ((cs ++ [d]).take n))) = true ↔
        decide (cs[n]? = some c ∧ Even (backslashes (cs.take n))) = true) := by
    intro n hn
    have hlt := List.mem_range.mp hn
    rw [List.getElem?_append_left hlt, List.take_append_of_le_length (Nat.le_of_lt hlt)]
  rw [bareCount, List.length_append, List.length_singleton, List.range_succ, List.countP_append,
    List.countP_congr hfront, List.countP_singleton, List.getElem?_concat_length, List.take_left]
  simp [bareCount]

/-- One more character counts once or not at all. -/
theorem bareCount_concat_bounds (c d : Char) (cs : List Char) :
    bareCount c cs ≤ bareCount c (cs ++ [d]) ∧ bareCount c (cs ++ [d]) ≤ bareCount c cs + 1 := by
  rw [bareCount_concat]
  split <;> omega

/-- The first character of a text counts, unless it is a backslash. -/
theorem bareCount_char (c : Char) (hd : d ≠ '\\') (cs : List Char) :
    bareCount c (d :: cs) = bareCount c cs + if d = c then 1 else 0 := by
  induction cs using List.reverseRec with
  | nil => simpa [backslashes, bareCount_nil] using bareCount_concat c d []
  | append_singleton cs e ih =>
    rw [← List.cons_append, bareCount_concat, bareCount_concat, ih, Nat.add_right_comm]
    simp only [even_backslashes_char hd]

/-- An escape does not count. -/
theorem bareCount_escape (hc : c ≠ '\\') (d : Char) (cs : List Char) :
    bareCount c ('\\' :: d :: cs) = bareCount c cs := by
  induction cs using List.reverseRec with
  | nil => simp [bareCount, List.range_succ, hc.symm, backslashes]
  | append_singleton cs e ih =>
    rw [← List.cons_append, ← List.cons_append, bareCount_concat, bareCount_concat, ih]
    simp only [even_backslashes_escape]

theorem bareCount_lone (hc : c ≠ '\\') : bareCount c ['\\'] = 0 := by
  simp [bareCount, List.range_succ, hc.symm]

end Count

/-! ### Places where a pair is closed -/

/-- The places of a text up to which it closes a pair `depth + 1` times more than it opens it. -/
def closedPlaces (opening closing : Char) (depth : Nat) (cs : List Char) : Set Nat :=
  {n | n ≤ cs.length ∧ bareCount closing (cs.take n) = bareCount opening (cs.take n) + depth + 1}

section Closed

variable {opening closing : Char} {depth : Nat} {cs : List Char}

theorem zero_notMem_closedPlaces : 0 ∉ closedPlaces opening closing depth cs := by
  rintro ⟨-, hcount⟩
  simp [bareCount_nil] at hcount

theorem closedPlaces_nil : closedPlaces opening closing depth [] = ∅ := by
  refine Set.eq_empty_of_forall_notMem fun n hn => ?_
  obtain rfl : n = 0 := Nat.le_zero.mp hn.1
  exact zero_notMem_closedPlaces hn

theorem closedPlaces_lone (hclosing : closing ≠ '\\') :
    closedPlaces opening closing depth ['\\'] = ∅ := by
  refine Set.eq_empty_of_forall_notMem fun n hn => ?_
  cases n with
  | zero => exact zero_notMem_closedPlaces hn
  | succ n =>
    have hcount := hn.2
    rw [List.take_succ_cons, List.take_nil, bareCount_lone hclosing] at hcount
    omega

theorem closedPlaces_escape (hopening : opening ≠ '\\') (hclosing : closing ≠ '\\') (d : Char)
    (cs : List Char) : closedPlaces opening closing depth ('\\' :: d :: cs) =
      (· + 2) '' closedPlaces opening closing depth cs := by
  refine eq_image_add 2 (fun n hlt hn => ?_) fun n => ?_
  · match n with
    | 0 => exact zero_notMem_closedPlaces hn
    | 1 =>
      have hcount := hn.2
      rw [List.take_succ_cons, List.take_zero, bareCount_lone hclosing] at hcount
      omega
  · refine and_congr (Nat.add_le_add_iff_right (n := 2)) ?_
    rw [List.take_succ_cons, List.take_succ_cons, bareCount_escape hclosing,
      bareCount_escape hopening]

/-- Behind its first character a text is as deep in the pair as this character leaves it. -/
theorem closedPlaces_char {d : Char} (hd : d ≠ '\\') (cs : List Char) (depth' : Nat)
    (hdepth : depth' + (if d = closing then 1 else 0) = depth + if d = opening then 1 else 0) :
    closedPlaces opening closing depth (d :: cs) =
      (· + 1) '' closedPlaces opening closing depth' cs := by
  refine eq_image_add 1 (fun n hlt hn => ?_) fun n => ?_
  · obtain rfl : n = 0 := Nat.lt_one_iff.mp hlt
    exact zero_notMem_closedPlaces hn
  · refine and_congr (Nat.add_le_add_iff_right (n := 1)) ?_
    rw [List.take_succ_cons, bareCount_char closing hd, bareCount_char opening hd]
    omega

/-- A closing character that nothing opens in front of it is the first to close the pair. -/
theorem isLeast_closedPlaces (hclosing : closing ≠ '\\') (hne : opening ≠ closing)
    (cs : List Char) : IsLeast (closedPlaces opening closing 0 (closing :: cs)) 1 := by
  refine ⟨⟨Nat.le_add_left 1 cs.length, ?_⟩, fun n hn => ?_⟩
  · rw [List.take_succ_cons, List.take_zero, bareCount_char closing hclosing,
      bareCount_char opening hclosing, if_pos rfl, if_neg hne.symm]
    rfl
  · refine Nat.pos_of_ne_zero ?_
    rintro rfl
    exact zero_notMem_closedPlaces hn

/-- The search for what closes a pair comes to the first place where it is closed. -/
theorem findClose_isFirst (hopening : opening ≠ '\\') (hclosing : closing ≠ '\\')
    (hne : opening ≠ closing) (depth : Nat) (cs : List Char) :
    IsFirst (closedPlaces opening closing depth cs) (findClose opening closing depth cs) := by
  have hmono (k : Nat) : Monotone fun n => n + k := fun _ _ hle => Nat.add_le_add_right hle k
  -- at each bare character the depth of the search and that of the places change alike
  induction cs using escape_induction generalizing depth with
  | nil =>
    rw [findClose]
    exact .of_eq_empty closedPlaces_nil
  | lone =>
    rw [findClose_lone_escape]
    exact .of_eq_empty (closedPlaces_lone hclosing)
  | escape d cs ih =>
    rw [findClose_escape, closedPlaces_escape hopening hclosing]
    exact (ih depth).map (hmono 2)
  | char d cs hd ih =>
    by_cases hclose : d = closing
    · subst hclose
      cases depth with
      | zero =>
        rw [findClose_closing hd]
        exact .of_isLeast (isLeast_closedPlaces hd hne cs)
      | succ depth =>
        rw [findClose_closing_succ hd,
          closedPlaces_char hd cs depth (by rw [if_pos rfl, if_neg hne.symm])]
        exact (ih depth).map (hmono 1)
    · by_cases hopen : d = opening
      · subst hopen
        rw [findClose_opening hd hne,
          closedPlaces_char hd cs (depth + 1) (by rw [if_neg hne, if_pos rfl])]
        exact (ih (depth + 1)).map (hmono 1)
      · rw [findClose_char hd hopen hclose,
          closedPlaces_char hd cs depth (by rw [if_neg hclose, if_neg hopen])]
        exact (ih depth).map (hmono 1)

/-- In front of the first place where a pair is closed it is closed at no other. -/
theorem bareCount_lt_of_isLeast {n : Nat} (h : IsLeast (closedPlaces opening closing depth cs) n)
    {m : Nat} (hm : m < n) :
    bareCount closing (cs.take m) < bareCount opening (cs.take m) + depth + 1 := by
  induction m with
  | zero => simp [bareCount_nil]
  | succ m ih =>
    have hlt : m < cs.length := by
      have hle := h.1.1
      omega
    have hfirst : m + 1 ∉ closedPlaces opening closing depth cs := fun hmem =>
      Nat.not_le_of_lt hm (h.2 hmem)
    have hcount : bareCount closing (cs.take (m + 1)) ≠
        bareCount opening (cs.take (m + 1)) + depth + 1 := fun heq => hfirst ⟨hlt, heq⟩
    -- one more character closes the pair once at most, so it cannot step over the place
    have hbefore := ih (Nat.lt_of_succ_lt hm)
    rw [List.take_succ_eq_append_getElem hlt] at hcount ⊢
    have hclosed := (bareCount_concat_bounds closing cs[m] (cs.take m)).2
    have hopened := (bareCount_concat_bounds opening cs[m] (cs.take m)).1
    omega

end Closed

/-! ### Ends of a pair -/

/-- The ends behind a start up to which the text has closed a pair as often as it has opened it. -/
def balancedEnds (opening closing : Char) (text : String) (start : Nat) : Set Nat :=
  {stop | start < stop ∧ ∃ part, slice? text start stop = some part ∧
    bareCount opening part = bareCount closing part}

theorem isMark_singleton {c : Char} : IsMark [c] ↔ c.toNat < 0x80 ∧ c ≠ '\\' := by
  constructor
  · intro h
    obtain ⟨d, rest, heq, hascii, hd⟩ := h.exists_cons
    obtain ⟨rfl, -⟩ := List.cons.inj heq
    exact ⟨hascii, hd⟩
  · rintro ⟨hascii, hc⟩
    refine ⟨fun d hd => List.mem_singleton.mp hd ▸ hascii, List.cons_ne_nil c [], fun hhead => ?_⟩
    exact hc (Option.some.inj hhead)

section Ends

variable {text : String} {start stop : Nat} {opening closing : Char} {rest : List Char}

/-- A character of ASCII stands between its position and the next. -/
theorem slice?_eq_singleton_iff {c : Char} (hc : c.toNat < 0x80) :
    slice? text start (start + 1) = some [c] ↔ ∃ rest, At text start (c :: rest) := by
  constructor
  · intro hslice
    obtain ⟨hstart, -⟩ := (isSome_slice?_iff _ _ _).mp (Option.isSome_of_eq_some hslice)
    obtain ⟨behind, h⟩ := hstart.exists_at
    obtain ⟨rest, rfl, -⟩ := h.exists_of_slice? hslice
    exact ⟨rest, h⟩
  · rintro ⟨rest, h⟩
    have hsplit : At text start ([c] ++ rest) := h
    have hslice := hsplit.slice?_eq
    rwa [byteLength_cons, byteLength_nil, utf8Size_ascii hc] at hslice

/-- A pair that is closed begins with its opening character. -/
theorem exists_at_of_stop? (hopening : opening.toNat < 0x80)
    (h : (Marker.paired opening closing).stop? text start = some stop) :
    ∃ rest, At text start (opening :: rest) := by
  refine exists_at_of_getElem? hopening ?_
  rw [Marker.stop?] at h
  split at h
  · cases h
  obtain ⟨n, hn, -⟩ := Option.map_eq_some_iff.mp h
  rw [← List.head?_drop]
  generalize (utf8 text.toList).drop start = us at hn
  rcases us with _ | ⟨u, us⟩
  · cases hn
  rw [Marker.lengthAt?] at hn
  split at hn
  next hu => rw [List.head?_cons, eq_of_beq hu]
  next => cases hn

namespace At

/-- The text from a character of ASCII up to a position so many characters behind it. -/
theorem slice?_opening (h : At text start (opening :: rest)) (hopening : opening.toNat < 0x80)
    (n : Nat) : slice? text start (start + 1 + byteLength (rest.take n)) =
      some (opening :: rest.take n) := by
  have hslice := h.slice?_take (n + 1)
  rwa [List.take_succ_cons, byteLength_cons, utf8Size_ascii hopening, ← Nat.add_assoc] at hslice

/-- Where a pair is opened its end is where the search behind the opening character comes to. -/
theorem stop?_opening (h : At text start (opening :: rest)) (hopening : opening.toNat < 0x80)
    (hclosing : closing.toNat < 0x80) : (Marker.paired opening closing).stop? text start =
      (findClose opening closing 0 rest).map fun n => start + 1 + byteLength (rest.take n) := by
  rw [h.stop?_eq hopening hclosing, Marker.lengthAt?_paired, Option.map_map]
  refine congrArg (Option.map · _) (funext fun n => ?_)
  rw [Function.comp_apply, List.take_succ_cons, byteLength_cons, utf8Size_ascii hopening,
    Nat.add_assoc]

/-- Where a pair is opened its balanced ends are those at which the text behind has closed it. -/
theorem balancedEnds_eq (h : At text start (opening :: rest)) (hopening : IsMark [opening])
    (hne : opening ≠ closing) : balancedEnds opening closing text start =
      (fun n => start + 1 + byteLength (rest.take n)) '' closedPlaces opening closing 0 rest := by
  obtain ⟨hascii, hescape⟩ := isMark_singleton.mp hopening
  -- the opening character itself is the one more that is to be closed
  have hcounts (cs : List Char) :
      bareCount opening (opening :: cs) = bareCount closing (opening :: cs) ↔
        bareCount closing cs = bareCount opening cs + 0 + 1 := by
    rw [bareCount_char opening hescape, bareCount_char closing hescape, if_pos rfl, if_neg hne]
    exact eq_comm
  ext stop
  constructor
  · rintro ⟨hlt, part, hslice, hcount⟩
    obtain ⟨behind, heq, rfl, -⟩ := h.exists_of_slice? hslice
    cases part with
    | nil =>
      rw [byteLength_nil] at hlt
      exact absurd hlt (Nat.lt_irrefl start)
    | cons c cs =>
      rw [List.cons_append] at heq
      obtain ⟨rfl, rfl⟩ := List.cons.inj heq
      refine ⟨cs.length, ⟨?_, ?_⟩, ?_⟩
      · rw [List.length_append]
        exact Nat.le_add_right _ _
      · rw [List.take_left]
        exact (hcounts cs).mp hcount
      · dsimp only
        rw [List.take_left, byteLength_cons, utf8Size_ascii hascii, Nat.add_assoc]
  · rintro ⟨n, ⟨-, hcount⟩, rfl⟩
    exact ⟨Nat.le_add_right (start + 1) _, opening :: rest.take n, h.slice?_opening hascii n,
      (hcounts _).mpr hcount⟩

/-- Where a pair is opened its end is the first at which it is balanced. -/
theorem stop?_isFirst (h : At text start (opening :: rest)) (hopening : IsMark [opening])
    (hclosing : IsMark [closing]) (hne : opening ≠ closing) :
    IsFirst (balancedEnds opening closing text start)
      ((Marker.paired opening closing).stop? text start) := by
  obtain ⟨hopenAscii, hopenEscape⟩ := isMark_singleton.mp hopening
  obtain ⟨hcloseAscii, hcloseEscape⟩ := isMark_singleton.mp hclosing
  rw [h.balancedEnds_eq hopening hne, h.stop?_opening hopenAscii hcloseAscii]
  refine (findClose_isFirst hopenEscape hcloseEscape hne 0 rest).map fun _ _ hle => ?_
  exact Nat.add_le_add_left (monotone_byteLength_take rest hle) (start + 1)

end At

/-- Up to its end a pair has been opened more often than closed. -/
theorem bareCount_lt_of_stop? (hopening : IsMark [opening]) (hclosing : IsMark [closing])
    (hne : opening ≠ closing)
    (h : (Marker.paired opening closing).stop? text start = some stop) :
    ∃ part, slice? text start stop = some part ∧ ∀ front, front <+: part → front ≠ [] →
      front ≠ part → bareCount closing front < bareCount opening front := by
  obtain ⟨hopenAscii, hopenEscape⟩ := isMark_singleton.mp hopening
  obtain ⟨hcloseAscii, hcloseEscape⟩ := isMark_singleton.mp hclosing
  obtain ⟨rest, hat⟩ := exists_at_of_stop? hopenAscii h
  rw [hat.stop?_opening hopenAscii hcloseAscii] at h
  obtain ⟨n, hn, rfl⟩ := Option.map_eq_some_iff.mp h
  have hleast := ((findClose_isFirst hopenEscape hcloseEscape hne 0 rest).eq_some_iff n).mp hn
  refine ⟨opening :: rest.take n, hat.slice?_opening hopenAscii n,
    fun front hfront hnil hproper => ?_⟩
  obtain ⟨c, cs, rfl⟩ := List.exists_cons_of_ne_nil hnil
  obtain ⟨rfl, hcs⟩ := List.cons_prefix_cons.mp hfront
  -- a proper part of the pair stops in front of the place where the search does
  have hlt : cs.length < n := by
    refine Nat.lt_of_le_of_ne (hcs.length_le.trans (List.length_take_le n rest)) fun heq => ?_
    refine hproper (congrArg _ (hcs.eq_of_length_le ?_))
    exact heq ▸ List.length_take_le n rest
  have htake : cs = rest.take cs.length :=
    List.prefix_iff_eq_take.mp (hcs.trans (List.take_prefix n rest))
  rw [bareCount_char closing hopenEscape, bareCount_char c hopenEscape, if_pos rfl, if_neg hne,
    htake]
  exact bareCount_lt_of_isLeast hleast hlt

/-- What stands behind the end of a pair has no part in it: with anything else there the pair ends
at the same place. -/
theorem stop?_append (hopening : opening.toNat < 0x80) (hclosing : closing.toNat < 0x80)
    (h : (Marker.paired opening closing).stop? text start = some stop) :
    ∃ front behind, text = front ++ behind ∧ front.utf8ByteSize = stop ∧
      ∀ more, (Marker.paired opening closing).stop? (front ++ more) start = some stop := by
  obtain ⟨rest, hat⟩ := exists_at_of_stop? hopening h
  obtain ⟨before, htext, rfl⟩ := hat.exists_front
  rw [hat.stop?_opening hopening hclosing] at h
  obtain ⟨n, hn, rfl⟩ := Option.map_eq_some_iff.mp h
  -- behind the characters up to the end of the pair, any others may take the place of the rest
  have hfront {more : List Char} : before ++ opening :: rest.take n ++ more =
      before ++ opening :: (rest.take n ++ more) := by
    rw [List.append_assoc, List.cons_append]
  refine ⟨String.ofList (before ++ opening :: rest.take n), String.ofList (rest.drop n), ?_, ?_,
    fun more => ?_⟩
  · rw [← String.ofList_append, hfront, List.take_append_drop, ← htext, String.ofList_toList]
  · rw [utf8ByteSize_eq, String.toList_ofList, byteLength_append, byteLength_cons,
      utf8Size_ascii hopening, Nat.add_assoc]
  · have hmore : At (String.ofList (before ++ opening :: rest.take n) ++ more) (byteLength before)
        (opening :: (rest.take n ++ more.toList)) :=
      .of_toList (by rw [String.toList_append, String.toList_ofList, hfront])
    have hle : n ≤ rest.length := by
      obtain ⟨inside, behind, rfl, rfl⟩ := findClose_split hn
      rw [List.length_append, List.length_cons]
      omega
    rw [hmore.stop?_opening hopening hclosing, findClose_take opening closing hn, Option.map_some,
      List.take_append_of_le_length (by rw [List.length_take_of_le hle]), List.take_take,
      Nat.min_self]

end Ends

/-! ### One character that opens and closes -/

/-- Where the closing character is the opening one, what closes a pair is the next one of them. -/
theorem findClose_same {α : Type} [Units α] [BEq α] (u : α) (us : List α) :
    findClose u u 0 us = (find (fun us => us.head?.any (· == u)) us).map (· + 1) := by
  fun_induction find (fun us => us.head?.any (· == u)) us with
  | case1 =>
    rw [findClose]
    rfl
  | case2 v rest hescape =>
    rename_i ih
    rw [findClose.eq_def]
    dsimp only
    rw [if_pos hescape, ih, Option.map_map, Option.map_map]
    refine congrArg (Option.map · _) (funext fun n => ?_)
    exact Nat.add_right_comm n 1 _
  | case3 v rest hescape hhit =>
    have hclose : (v == u) = true := hhit
    rw [findClose.eq_def]
    dsimp only
    rw [if_neg hescape, if_pos hclose]
    rfl
  | case4 v rest hescape hhit ih =>
    have hclose : ¬ (v == u) = true := hhit
    rw [findClose.eq_def]
    dsimp only
    rw [if_neg hescape, if_neg hclose, if_neg hclose, ih]

section Same

variable {text : String} {start : Nat} {c : Char} {rest : List Char}

/-- Where a pair of one character is opened its end is behind the next one. -/
theorem At.stop?_same (h : At text start (c :: rest)) (hc : c.toNat < 0x80) :
    (Marker.paired c c).stop? text start =
      ((Marker.single c).start? text (start + 1)).map (· + 1) := by
  have hnext : At text (start + 1) rest := utf8Size_ascii hc ▸ h.next
  have hinside : ¬ (utf8 text.toList).length < start := by
    have hle := h.le
    rw [utf8ByteSize_eq, ← length_utf8] at hle
    exact Nat.not_lt_of_le hle
  rw [Marker.stop?, if_neg hinside, h.drop_utf8, utf8_ascii hc, Marker.lengthAt?,
    if_pos (beq_self_eq_true _), findClose_same, Marker.start?, hnext.drop_utf8, Option.map_map,
    Option.map_map, Option.map_map]
  refine congrArg (Option.map · _) (funext fun n => ?_)
  simp only [Function.comp_apply]
  omega

/-- Where a pair of one character is opened its end is behind the first bare one. -/
theorem At.stop?_same_isFirst (h : At text start (c :: rest)) (hc : IsMark [c]) :
    IsFirst ((· + 1) '' barePositions text (start + 1) {[c]})
      ((Marker.paired c c).stop? text start) := by
  have hascii := (isMark_singleton.mp hc).1
  have hnext : At text (start + 1) rest := utf8Size_ascii hascii ▸ h.next
  rw [h.stop?_same hascii]
  exact (start?_isFirst (m := .single c) hnext.boundary hc).map
    fun _ _ hle => Nat.add_le_add_right hle 1

end Same

/-! ### All pairs -/

section Pairs

variable {opening closing : Char}

/-- A pair that ends at the first of some places wherever it is opened has no other end. -/
theorem stop?_iff_of_opened {text : String} {start : Nat} (hopening : opening.toNat < 0x80)
    {places : Set Nat} (hfirst : ∀ rest, At text start (opening :: rest) →
      IsFirst places ((Marker.paired opening closing).stop? text start)) :
    (∀ stop, (Marker.paired opening closing).stop? text start = some stop ↔
      slice? text start (start + 1) = some [opening] ∧ IsLeast places stop) ∧
    ((Marker.paired opening closing).stop? text start = none ↔
      slice? text start (start + 1) ≠ some [opening] ∨ places = ∅) := by
  rw [Ne, slice?_eq_singleton_iff hopening]
  by_cases hopened : ∃ rest, At text start (opening :: rest)
  · obtain ⟨rest, h⟩ := hopened
    refine ⟨fun stop => ?_, ?_⟩
    · rw [(hfirst rest h).eq_some_iff]
      exact (and_iff_right ⟨rest, h⟩).symm
    · rw [(hfirst rest h).eq_none_iff]
      exact (or_iff_right fun hnot => hnot ⟨rest, h⟩).symm
  · have hnone : (Marker.paired opening closing).stop? text start = none :=
      Option.eq_none_iff_forall_ne_some.mpr fun stop hstop =>
        hopened (exists_at_of_stop? hopening hstop)
    refine ⟨fun stop => ?_, ?_⟩
    · rw [hnone]
      exact iff_of_false (Option.some_ne_none stop).symm fun h => hopened h.1
    · exact iff_of_true hnone (.inl hopened)

/-- A pair ends at the first balance point. Wherever a search for its end starts, it finds one
exactly if the opening character stands there and some end behind leaves the pair opened as often
as closed, and of these it finds the least; up to there the pair has been opened more often. A pair
of one character ends behind the next bare one. The end does not depend on the text behind it. -/
theorem pair_ends_at_balance (hopening : IsMark [opening]) (hclosing : IsMark [closing])
    (text : String) (start : Nat) :
    (opening ≠ closing →
      (∀ stop, (Marker.paired opening closing).stop? text start = some stop ↔
        slice? text start (start + 1) = some [opening] ∧
          IsLeast (balancedEnds opening closing text start) stop) ∧
      ((Marker.paired opening closing).stop? text start = none ↔
        slice? text start (start + 1) ≠ some [opening] ∨
          balancedEnds opening closing text start = ∅) ∧
      ∀ stop, (Marker.paired opening closing).stop? text start = some stop →
        ∃ part, slice? text start stop = some part ∧
          ∀ front, front <+: part → front ≠ [] → front ≠ part →
            bareCount closing front < bareCount opening front) ∧
    (opening = closing →
      (∀ stop, (Marker.paired opening closing).stop? text start = some stop ↔
        slice? text start (start + 1) = some [opening] ∧
          IsLeast ((· + 1) '' barePositions text (start + 1) {[opening]}) stop) ∧
      ((Marker.paired opening closing).stop? text start = none ↔
        slice? text start (start + 1) ≠ some [opening] ∨
          barePositions text (start + 1) {[opening]} = ∅)) ∧
    ∀ stop, (Marker.paired opening closing).stop? text start = some stop →
      ∃ front behind, text = front ++ behind ∧ front.utf8ByteSize = stop ∧
        ∀ more, (Marker.paired opening closing).stop? (front ++ more) start = some stop := by
  have hopenAscii := (isMark_singleton.mp hopening).1
  have hcloseAscii := (isMark_singleton.mp hclosing).1
  refine ⟨fun hne => ?_, ?_, fun stop hstop => stop?_append hopenAscii hcloseAscii hstop⟩
  · obtain ⟨hsome, hnone⟩ := stop?_iff_of_opened hopenAscii fun rest h =>
      h.stop?_isFirst hopening hclosing hne
    exact ⟨hsome, hnone, fun stop hstop => bareCount_lt_of_stop? hopening hclosing hne hstop⟩
  · rintro rfl
    obtain ⟨hsome, hnone⟩ := stop?_iff_of_opened hopenAscii fun rest h =>
      h.stop?_same_isFirst hopening
    rw [Set.image_eq_empty] at hnone
    exact ⟨hsome, hnone⟩

/-- A bracket that an escape hides opens nothing, and the next one behind a character of two bytes
does. A quoted text ends at the first quotation mark that no escape hides. -/
theorem pair_ends_at_balance_nested :
    IsMark ['['] ∧ IsMark [']'] ∧ IsMark ['"'] ∧
      Marker.bracket.stop? "é[a\\[é[b]c]d]" 2 = some 13 ∧
      IsLeast (balancedEnds '[' ']' "é[a\\[é[b]c]d]" 2) 13 ∧
      (∃ front behind, "é[a\\[é[b]c]d]" = front ++ behind ∧ front.utf8ByteSize = 13 ∧
        ∀ more, Marker.bracket.stop? (front ++ more) 2 = some 13) ∧
      Marker.textBlock.stop? "\"é\\\"x\"y\"" 0 = some 7 ∧
      IsLeast ((· + 1) '' barePositions "\"é\\\"x\"y\"" 1 {['"']}) 7 := by
  have hopening : IsMark ['['] := by decide
  have hclosing : IsMark [']'] := by decide
  have hquote : IsMark ['"'] := by decide
  have hbracket : Marker.bracket.stop? "é[a\\[é[b]c]d]" 2 = some 13 := by decide +kernel
  have htext : Marker.textBlock.stop? "\"é\\\"x\"y\"" 0 = some 7 := by decide +kernel
  have hnested := pair_ends_at_balance hopening hclosing "é[a\\[é[b]c]d]" 2
  have hquoted := pair_ends_at_balance hquote hquote "\"é\\\"x\"y\"" 0
  exact ⟨hopening, hclosing, hquote, hbracket,
    (((hnested.1 (by decide)).1 13).mp hbracket).2, hnested.2.2 13 hbracket, htext,
    (((hquoted.2.1 rfl).1 7).mp htext).2⟩

end Pairs

end Gamebook.Text
