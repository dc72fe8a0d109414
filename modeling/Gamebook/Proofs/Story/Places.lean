import Gamebook.Proofs.Story.Remarks

/-!
# Where loading points to

What is noticed while a source is loaded has a place, and the source can be cut there: the place
goes forward, does not leave the source, and begins and ends between two characters of it
(`Loaded.points`). Places are found in the text without remarks. That they are good for the source
too is due to what stands there: a bracket, which no remark turns into anything else, or the end.

All but the report on the text in front of the first definition is raised by a definition, and
points to its opening bracket (`Loaded.raised`).
-/

namespace Gamebook

open Text

namespace Source

/-! ### Brackets of definitions -/

/-- Each definition starts behind those in front of it. -/
theorem definitionStarts_pairwise (at' : Nat) (inText : Bool) (depth : Nat) (cs : List Char) :
    (definitionStarts at' inText depth cs).Pairwise (· < ·) := by
  induction cs using escape_induction generalizing at' inText depth with
  | nil => exact .nil
  | lone =>
    rw [definitionStarts_lone]
    exact .nil
  | escape c cs ih =>
    rw [definitionStarts]
    exact ih _ _ _
  | char c cs hc ih =>
    rw [definitionStarts_char hc]
    refine List.pairwise_append.mpr ⟨?_, ih _ _ _, fun start hstart later hlater => ?_⟩
    · split
      · exact List.pairwise_singleton _ _
      · exact .nil
    · obtain ⟨k, -, rfl, -⟩ := drop_of_mem_definitionStarts hlater
      split at hstart
      · rw [List.mem_singleton.mp hstart]
        omega
      · cases hstart

/-- A definition reaches from its start to the next one, or to the end. -/
theorem mem_extents {length : Nat} {starts : List Nat} (hstarts : starts.Pairwise (· < ·))
    (hlength : ∀ s ∈ starts, s < length) {extent : Nat × Nat}
    (h : extent ∈ extents length starts) :
    extent.1 ∈ starts ∧ extent.1 < extent.2 ∧ (extent.2 = length ∨ extent.2 ∈ starts) := by
  fun_induction extents length starts with
  | case1 => cases h
  | case2 start =>
    rw [List.mem_singleton.mp h]
    exact ⟨List.mem_cons_self, hlength start List.mem_cons_self, .inl rfl⟩
  | case3 start next rest ih =>
    obtain ⟨hfirst, hrest⟩ := List.pairwise_cons.mp hstarts
    have hnext : next ∈ next :: rest := List.mem_cons_self
    rcases List.mem_cons.mp h with rfl | h
    · exact ⟨List.mem_cons_self, hfirst next hnext, .inr (List.mem_cons_of_mem _ hnext)⟩
    · obtain ⟨hmem, hlt, hstop⟩ := ih hrest (fun s hs => hlength s (List.mem_cons_of_mem _ hs)) h
      exact ⟨List.mem_cons_of_mem _ hmem, hlt, hstop.imp id (List.mem_cons_of_mem _)⟩

/-! ### Places in the source -/

section Places

variable {source : String}

/-- The position in bytes of a place in the text without remarks. -/
def position (source : String) (place : Nat) : Nat :=
  byteLength ((blankRemarks source.toList).take place)

/-- What is no space in the text without remarks stands at the same position in the source. -/
theorem exists_at_of_drop {place : Nat} {c : Char} {rest : List Char} (hc : c.toNat < 0x80)
    (hspace : c ≠ ' ') (h : (blankRemarks source.toList).drop place = c :: rest) :
    ∃ rest, At source (position source place) (c :: rest) := by
  have hsplit : utf8 (blankRemarks source.toList) =
      utf8 ((blankRemarks source.toList).take place) ++ Units.ofChar c :: utf8 rest := by
    rw [← utf8_ascii hc, ← h, ← utf8_append, List.take_append_drop]
  have hbyte : (utf8 (blankRemarks source.toList))[position source place]? =
      some (Units.ofChar c) := by
    rw [hsplit, position, ← length_utf8, List.getElem?_append_right (Nat.le_refl _), Nat.sub_self]
    rfl
  obtain ⟨hremark, hother⟩ := getElem?_blankRemarks source (position source place)
  have hin : ¬ InRemark source (position source place) := fun hin => by
    have hsame := Option.some.inj (hbyte.symm.trans (hremark hin))
    exact hspace ((ofChar_inj hc (by decide)).mp hsame)
  exact exists_at_of_getElem? hc ((hother hin).symm.trans hbyte)

theorem position_succ {place : Nat} {c : Char} {rest : List Char}
    (h : (blankRemarks source.toList).drop place = c :: rest) :
    position source (place + 1) = position source place + c.utf8Size := by
  rw [position, List.take_add, h, byteLength_append]
  rfl

theorem exists_at_of_mem {start : Nat}
    (h : start ∈ definitionStarts 0 false 0 (blankRemarks source.toList)) :
    ∃ rest, At source (position source start) ('[' :: rest) := by
  obtain ⟨k, rest, rfl, hdrop⟩ := drop_of_mem_definitionStarts h
  rw [Nat.zero_add]
  exact exists_at_of_drop (by decide) (by decide) hdrop

theorem position_length : position source (blankRemarks source.toList).length =
    source.utf8ByteSize := by
  rw [position, List.take_length, byteLength_blankRemarks, utf8ByteSize_eq]

/-- Whether a source can be cut at a span. -/
structure Points (source : String) (s : Span) : Prop where
  forward : s.start ≤ s.stop
  within : s.stop ≤ source.utf8ByteSize
  start : Boundary source s.start
  stop : Boundary source s.stop

/-- A source can be cut between two places, if it can be at each of them. -/
theorem Points.of_positions {start stop : Nat} (hle : start ≤ stop)
    (hstart : Boundary source (position source start))
    (hstop : Boundary source (position source stop)) :
    Points source ⟨position source start, position source stop⟩ where
  forward := monotone_byteLength_take _ hle
  within := by
    obtain ⟨behind, h⟩ := hstop.exists_at
    exact h.le
  start := hstart
  stop := hstop

/-- The end of a definition. -/
theorem boundary_of_stop {stop : Nat} (h : stop = (blankRemarks source.toList).length ∨
      stop ∈ definitionStarts 0 false 0 (blankRemarks source.toList)) :
    Boundary source (position source stop) := by
  rcases h with rfl | h
  · rw [position_length]
    exact (At.stop source).boundary
  · obtain ⟨rest, hat⟩ := exists_at_of_mem h
    exact hat.boundary

/-- A source can be cut at the header of a definition. -/
theorem points_headerSpan {extent : Nat × Nat} (h : extent ∈ extents
      (blankRemarks source.toList).length
      (definitionStarts 0 false 0 (blankRemarks source.toList))) :
    Points source (headerSpan (blankRemarks source.toList) extent.1 extent.2) := by
  obtain ⟨hmem, hlt, hstop⟩ := mem_extents (definitionStarts_pairwise _ _ _ _)
    (fun s hs => by simpa using lt_of_mem_definitionStarts hs) h
  obtain ⟨rest, hat⟩ := exists_at_of_mem hmem
  rw [headerSpan]
  cases hlength : Marker.bracket.lengthAt? ((blankRemarks source.toList).drop extent.1) with
  | none => exact .of_positions (Nat.le_of_lt hlt) hat.boundary (boundary_of_stop hstop)
  | some n =>
    dsimp only
    rcases Nat.le_total extent.2 (extent.1 + n) with hle | hle
    · rw [Nat.min_eq_right hle]
      exact .of_positions (Nat.le_of_lt hlt) hat.boundary (boundary_of_stop hstop)
    · -- the header ends behind the bracket that closes it
      obtain ⟨inside, behind, hsplit, rfl⟩ := Marker.lengthAt?_split hlength
      have hclose : (blankRemarks source.toList).drop (extent.1 + (inside.length + 1)) =
          ']' :: behind := by
        rw [← List.drop_drop, hsplit, List.drop_succ_cons, List.drop_left]
      obtain ⟨rest', hat'⟩ := exists_at_of_drop (by decide) (by decide) hclose
      rw [Nat.min_eq_left hle]
      refine .of_positions (Nat.le_add_right _ _) hat.boundary ?_
      have hbehind := hat'.next.boundary
      rwa [← position_succ hclose] at hbehind

end Places

end Source

namespace Loaded

/-- What each definition of a text raises, with the position of the bracket that opens it. -/
def raised (cs : List Char) (s : Story) : List (Nat × Nat) → List (Nat × List Diagnostic)
  | [] => []
  | extent :: rest =>
    let o := Source.define cs s extent
    (byteLength (cs.take extent.1), o.diagnostics) :: raised cs o.story rest

/-- What is noticed while definitions are taken up is what these raise, one after the other. -/
theorem diagnostics_addExtents (l : Loaded) (cs : List Char) (extents : List (Nat × Nat)) :
    (l.addExtents cs extents).diagnostics =
      l.diagnostics ++ (raised cs l.story extents).flatMap (·.2) := by
  induction extents generalizing l with
  | nil => exact (List.append_nil _).symm
  | cons extent extents ih =>
    rw [addExtents, List.foldl_cons, ← addExtents, ih, raised, List.flatMap_cons,
      ← List.append_assoc]
    rfl

/-- What a definition raises points to its header. -/
theorem span_of_mem_raised {cs : List Char} {s : Story} {extents : List (Nat × Nat)}
    {definition : Nat × List Diagnostic} (h : definition ∈ raised cs s extents) :
    ∃ extent ∈ extents, definition.1 = byteLength (cs.take extent.1) ∧
      ∀ d ∈ definition.2, d.span = Source.headerSpan cs extent.1 extent.2 := by
  induction extents generalizing s with
  | nil => cases h
  | cons extent extents ih =>
    rcases List.mem_cons.mp h with rfl | h
    · exact ⟨extent, List.mem_cons_self, rfl, fun d hd => Story.span_of_mem_define _ _ hd⟩
    · obtain ⟨other, hother, hplace⟩ := ih h
      exact ⟨other, List.mem_cons_of_mem extent hother, hplace⟩

/-- What the definitions of a source raise. -/
def raisedOf (source : String) : List (Nat × List Diagnostic) :=
  let cs := Source.blankRemarks source.toList
  raised cs ⟨[], .empty⟩ (Source.extents cs.length (Source.definitionStarts 0 false 0 cs))

theorem diagnostics_load (source : String) : (Story.load source).diagnostics =
    Story.ignored (Story.front (Source.blankRemarks source.toList)) ++
      (raisedOf source).flatMap (·.2) := by
  rw [Story.load_eq, addText, diagnostics_addExtents]
  rfl

/-- A definition raises nothing but what points to its header, and the source can be cut there. -/
theorem points_of_mem_raisedOf {source : String} {definition : Nat × List Diagnostic}
    (h : definition ∈ raisedOf source) :
    (∃ rest, At source definition.1 ('[' :: rest)) ∧
      ∀ d ∈ definition.2, d.span.start = definition.1 ∧ Source.Points source d.span := by
  obtain ⟨extent, hextent, hplace, hspan⟩ := span_of_mem_raised h
  obtain ⟨hmem, -, -⟩ := Source.mem_extents (Source.definitionStarts_pairwise _ _ _ _)
    (fun s hs => by simpa using Source.lt_of_mem_definitionStarts hs) hextent
  refine ⟨hplace ▸ Source.exists_at_of_mem hmem, fun d hd => ?_⟩
  rw [hspan d hd]
  exact ⟨hplace.symm, Source.points_headerSpan hextent⟩

/-- The text in front of the first definition ends where the source can be cut. -/
theorem points_front (source : String) : Source.Points source
    ⟨0, byteLength (Story.front (Source.blankRemarks source.toList))⟩ := by
  have hstart : Boundary source (Source.position source 0) := (At.start source).boundary
  refine .of_positions (Nat.zero_le _) hstart (Source.boundary_of_stop ?_)
  cases Source.definitionStarts 0 false 0 (Source.blankRemarks source.toList) with
  | nil => exact .inl rfl
  | cons start starts => exact .inr List.mem_cons_self

theorem points_of_mem_load {source : String} {d : Diagnostic}
    (h : d ∈ (Story.load source).diagnostics) : Source.Points source d.span := by
  rw [diagnostics_load] at h
  rcases List.mem_append.mp h with h | h
  · rw [Story.ignored] at h
    split at h
    · cases h
    · rw [List.mem_singleton.mp h]
      exact points_front source
  · obtain ⟨definition, hdefinition, hd⟩ := List.mem_flatMap.mp h
    exact ((points_of_mem_raisedOf hdefinition).2 d hd).2

/-- Loading points into the source. The text without remarks has as many bytes, each of which is
that of the source, or a space in place of a byte of a remark, and its line feeds are those of the
source. Whatever is noticed has a span at which the source can be cut. It is that of the text in
front of the first definition, or is raised by a definition and starts at its opening bracket. -/
theorem loading_points_into_source (source : String) :
    byteLength (Source.blankRemarks source.toList) = source.utf8ByteSize ∧
    (∀ i, (Source.InRemark source i →
        (utf8 (Source.blankRemarks source.toList))[i]? = some Source.spaceByte) ∧
      (¬ Source.InRemark source i →
        (utf8 (Source.blankRemarks source.toList))[i]? = (utf8 source.toList)[i]?) ∧
      ((utf8 (Source.blankRemarks source.toList))[i]? = some Source.feedByte ↔
        (utf8 source.toList)[i]? = some Source.feedByte)) ∧
    (∀ d ∈ (Story.load source).diagnostics, d.span.start ≤ d.span.stop ∧
      d.span.stop ≤ source.utf8ByteSize ∧ Boundary source d.span.start ∧
      Boundary source d.span.stop) ∧
    (Story.load source).diagnostics =
      Story.ignored (Story.front (Source.blankRemarks source.toList)) ++
        (raisedOf source).flatMap (·.2) ∧
    ∀ definition ∈ raisedOf source, (∃ rest, At source definition.1 ('[' :: rest)) ∧
      ∀ d ∈ definition.2, d.span.start = definition.1 := by
  refine ⟨?_, fun i => ?_, fun d hd => ?_, diagnostics_load source, fun definition hmem => ?_⟩
  · rw [Source.byteLength_blankRemarks, utf8ByteSize_eq]
  · obtain ⟨hremark, hother⟩ := Source.getElem?_blankRemarks source i
    exact ⟨hremark, hother, Source.feed_blankRemarks source i⟩
  · obtain ⟨hforward, hwithin, hstart, hstop⟩ := points_of_mem_load hd
    exact ⟨hforward, hwithin, hstart, hstop⟩
  · obtain ⟨hbracket, hspans⟩ := points_of_mem_raisedOf hmem
    exact ⟨hbracket, fun d hd => (hspans d hd).1⟩

end Loaded

end Gamebook
