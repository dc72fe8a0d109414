import Gamebook.Proofs.Page.Origin
import Gamebook.Proofs.Text.Joining
import Gamebook.Story.Source
import Mathlib.Data.List.TakeWhile

/-!
# Sources put together

Loading a source is loading its first part and then going on with the rest, wherever the two parts
can be told apart: the first one ends with a line feed, leaves no quoted text and no bracket open,
and the second one begins with a definition (`Story.load_append`). Four searches must agree on this.
Remarks end with their lines; the search for definitions stands at the seam as it does at the
beginning (`Source.scanEnd`); a bracket in front of the seam has seen what it opens; and a header
that is not closed in time ends with its definition.

What is reported of the rest is what would be reported of it alone, moved by the bytes of the first
part. A definition itself does not depend on its place (`Story.define_shift`).
-/

namespace Gamebook

namespace Source

open Text

/-! ### Remarks -/

/-- A remark ends with its line. -/
theorem blankRemarks_append (cs ds : List Char) :
    blankRemarks (cs ++ '\n' :: ds) = blankRemarks cs ++ '\n' :: blankRemarks ds := by
  have hne (es : List Char) : (split '\n' es).map blankRemark ≠ [] := fun hnil => by
    have hlength := length_split '\n' es
    rw [List.map_eq_nil_iff.mp hnil] at hlength
    cases hlength
  rw [blankRemarks, split_append, List.map_append, intercalate_append _ (hne cs) (hne ds)]
  rfl

/-- A line takes as many bytes as before when its remark is blanked out. -/
theorem byteLength_blankRemark (line : List Char) :
    byteLength (blankRemark line) = byteLength line := by
  have hprefix : stripComment line <+: line := by
    rw [stripComment, cut]
    cases find Marker.comment.startsAt line with
    | none => exact List.prefix_refl line
    | some n =>
      show (line.splitAt n).1 <+: line
      rw [List.splitAt_eq]
      exact List.take_prefix n line
  obtain ⟨remark, hremark⟩ := hprefix
  have hspaces (n : Nat) : byteLength (List.replicate n ' ') = n := by
    induction n with
    | zero => rfl
    | succ n ih =>
      rw [List.replicate_succ, byteLength_cons, ih, Nat.add_comm]
      rfl
  have hlength := congrArg byteLength hremark
  rw [byteLength_append] at hlength
  rw [blankRemark, byteLength_append, hspaces]
  omega

/-- So does a text. -/
theorem byteLength_blankRemarks (cs : List Char) :
    byteLength (blankRemarks cs) = byteLength cs := by
  have hlines (lines : List (List Char)) :
      byteLength (['\n'].intercalate (lines.map blankRemark)) =
        byteLength (['\n'].intercalate lines) := by
    induction lines with
    | nil => rfl
    | cons line lines ih =>
      cases lines with
      | nil => simpa using byteLength_blankRemark line
      | cons next lines =>
        simp only [List.map_cons, List.intercalate_cons_cons, byteLength_append,
          byteLength_blankRemark] at ih ⊢
        rw [ih]
  rw [blankRemarks, hlines, intercalate_split]

/-! ### The search for definitions -/

/-- Where the search for definitions stands after a character that escapes nothing: whether in a
quoted text, and how many brackets are open. -/
def scanStep (inText : Bool) (depth : Nat) (c : Char) : Bool × Nat :=
  if inText then (c != '"', depth)
  else if c = '"' then (true, depth)
  else if c = '[' then (false, depth + 1)
  else if c = ']' then (false, depth - 1)
  else (false, depth)

/-- Where the search for definitions stands at the end of a text. -/
def scanEnd (inText : Bool) (depth : Nat) : List Char → Bool × Nat
  | [] => (inText, depth)
  | '\\' :: _ :: rest => scanEnd inText depth rest
  | c :: rest => scanEnd (scanStep inText depth c).1 (scanStep inText depth c).2 rest

theorem scanEnd_char {c : Char} (hc : c ≠ '\\') (inText : Bool) (depth : Nat) (rest : List Char) :
    scanEnd inText depth (c :: rest) =
      scanEnd (scanStep inText depth c).1 (scanStep inText depth c).2 rest := by
  rw [scanEnd]
  rintro _ _ rfl
  exact absurd rfl hc

/-- A character that escapes nothing starts a definition, or none. -/
theorem definitionStarts_char {c : Char} (hc : c ≠ '\\') (at' : Nat) (inText : Bool) (depth : Nat)
    (rest : List Char) : definitionStarts at' inText depth (c :: rest) =
      (if inText = false ∧ c = '[' ∧ depth = 0 ∧ opensDefinition rest then [at'] else []) ++
        definitionStarts (at' + 1) (scanStep inText depth c).1 (scanStep inText depth c).2
          rest := by
  rw [definitionStarts, scanStep]
  · cases inText with
    | true => rfl
    | false =>
      by_cases hquote : c = '"'
      · subst hquote
        rfl
      · by_cases hopen : c = '['
        · subst hopen
          simp
        · by_cases hclose : c = ']'
          · subst hclose
            rfl
          · simp [hquote, hopen, hclose]
  · rintro _ _ rfl
    exact absurd rfl hc

theorem definitionStarts_lone (at' : Nat) (inText : Bool) (depth : Nat) :
    definitionStarts at' inText depth ['\\'] = [] := by
  cases inText with
  | true => rfl
  | false => rfl

/-- Places in a text behind another one are counted from the beginning of that one. -/
theorem definitionStarts_add (at' k : Nat) (inText : Bool) (depth : Nat) (cs : List Char) :
    definitionStarts (at' + k) inText depth cs =
      (definitionStarts at' inText depth cs).map (· + k) := by
  induction cs using escape_induction generalizing at' inText depth with
  | nil => rfl
  | lone => rw [definitionStarts_lone, definitionStarts_lone, List.map_nil]
  | escape c cs ih => rw [definitionStarts, definitionStarts, ← ih, Nat.add_right_comm]
  | char c cs hc ih =>
    rw [definitionStarts_char hc, definitionStarts_char hc, List.map_append, ← ih,
      Nat.add_right_comm]
    split
    · rfl
    · rfl

/-- A definition starts at a bracket. -/
theorem drop_of_mem_definitionStarts {at' : Nat} {inText : Bool} {depth : Nat} {cs : List Char}
    {start : Nat} (h : start ∈ definitionStarts at' inText depth cs) :
    ∃ k rest, start = at' + k ∧ cs.drop k = '[' :: rest := by
  induction cs using escape_induction generalizing at' inText depth with
  | nil => cases h
  | lone =>
    rw [definitionStarts_lone] at h
    cases h
  | escape c cs ih =>
    rw [definitionStarts] at h
    obtain ⟨k, rest, rfl, hdrop⟩ := ih h
    exact ⟨k + 2, rest, by omega, hdrop⟩
  | char c cs hc ih =>
    rw [definitionStarts_char hc] at h
    rcases List.mem_append.mp h with h | h
    · split at h
      next hopens =>
        rw [List.mem_singleton.mp h, hopens.2.1]
        exact ⟨0, cs, rfl, rfl⟩
      · cases h
    · obtain ⟨k, rest, rfl, hdrop⟩ := ih h
      exact ⟨k + 1, rest, by omega, hdrop⟩

/-- Definitions start within the text. -/
theorem lt_of_mem_definitionStarts {at' : Nat} {inText : Bool} {depth : Nat} {cs : List Char}
    {start : Nat} (h : start ∈ definitionStarts at' inText depth cs) :
    start < at' + cs.length := by
  obtain ⟨k, rest, rfl, hdrop⟩ := drop_of_mem_definitionStarts h
  have hlength : (cs.drop k).length = rest.length + 1 := by rw [hdrop, List.length_cons]
  rw [List.length_drop] at hlength
  omega

/-- White space leaves the search as it is outside of quoted texts. -/
theorem scanEnd_blank {cs : List Char} (h : isBlank cs = true) (depth : Nat) :
    scanEnd false depth cs = (false, depth) := by
  induction cs with
  | nil => rfl
  | cons c cs ih =>
    rw [isBlank, List.all_cons, Bool.and_eq_true] at h
    have hne : ∀ d, isSpace d = false → c ≠ d := by
      rintro d hd rfl
      rw [h.1] at hd
      cases hd
    have hstep : scanStep false depth c = (false, depth) := by
      simp [scanStep, hne '"' (by decide), hne '[' (by decide), hne ']' (by decide)]
    rw [scanEnd_char (hne '\\' (by decide)), hstep]
    exact ih h.2

/-- What a bracket opens is seen in what stands behind it, unless that is blank. -/
theorem opensDefinition_append {cs : List Char} (h : isBlank cs = false) (ds : List Char) :
    opensDefinition (cs ++ ds) = opensDefinition cs := by
  have hne : cs.dropWhile isSpace ≠ [] := fun hnil => by
    rw [isBlank, List.all_eq_true.mpr (List.dropWhile_eq_nil_iff.mp hnil)] at h
    cases h
  obtain ⟨c, rest, hrest⟩ := List.exists_cons_of_ne_nil hne
  rw [opensDefinition, opensDefinition, trimStart, trimStart, List.dropWhile_append, hrest]
  rfl

/-- The definitions of a text in which no bracket stays open, and those of the text behind it. -/
theorem definitionStarts_append {cs : List Char} (hcs : Masked (fun _ => True) cs) {at' : Nat}
    {inText : Bool} {depth : Nat} (hclosed : (scanEnd inText depth cs).2 = 0) (ds : List Char) :
    definitionStarts at' inText depth (cs ++ ds) = definitionStarts at' inText depth cs ++
      definitionStarts (at' + cs.length) (scanEnd inText depth cs).1 0 ds := by
  induction hcs generalizing at' inText depth with
  | nil =>
    have hzero : depth = 0 := hclosed
    rw [hzero]
    rfl
  | escape c _ ih =>
    rw [scanEnd] at hclosed
    rw [List.cons_append, List.cons_append, definitionStarts, ih hclosed, definitionStarts, scanEnd,
      List.length_cons, List.length_cons, Nat.add_assoc, Nat.add_comm 2]
  | @char c cs hc _ _ ih =>
    rw [scanEnd_char hc] at hclosed
    have hopens : (inText = false ∧ c = '[' ∧ depth = 0 ∧ opensDefinition (cs ++ ds) = true) ↔
        (inText = false ∧ c = '[' ∧ depth = 0 ∧ opensDefinition cs = true) := by
      refine and_congr_right ?_
      rintro rfl
      refine and_congr_right ?_
      rintro rfl
      refine and_congr_right ?_
      rintro rfl
      -- behind nothing but white space the bracket would stay open
      have hblank : isBlank cs = false := Bool.eq_false_iff.mpr fun hblank => by
        have hopen := congrArg Prod.snd (scanEnd_blank hblank 1)
        cases hopen.symm.trans hclosed
      rw [opensDefinition_append hblank]
    rw [List.cons_append, definitionStarts_char hc, definitionStarts_char hc, ih hclosed,
      scanEnd_char hc, List.length_cons, List.append_assoc, Nat.add_assoc, Nat.add_comm 1]
    simp only [hopens]

/-! ### Extents -/

/-- The same extent in a text with `k` more characters in front. -/
def shiftExtent (k : Nat) (extent : Nat × Nat) : Nat × Nat :=
  (extent.1 + k, extent.2 + k)

theorem extents_shift (length k : Nat) (starts : List Nat) :
    extents (length + k) (starts.map (· + k)) = (extents length starts).map (shiftExtent k) := by
  fun_induction extents length starts with
  | case1 => rfl
  | case2 start => rfl
  | case3 start next rest ih =>
    rw [List.map_cons, List.map_cons, extents, ← List.map_cons (f := (· + k)), ih]
    rfl

/-- Where the last definition of a text ends with the text, the definitions behind it change
nothing. -/
theorem extents_append (length k : Nat) (starts rest : List Nat) :
    extents (length + k) (starts ++ (0 :: rest).map (· + k)) =
      extents k starts ++ (extents length (0 :: rest)).map (shiftExtent k) := by
  fun_induction extents k starts with
  | case1 => exact extents_shift length k (0 :: rest)
  | case2 start =>
    rw [← extents_shift, List.singleton_append, List.singleton_append, List.map_cons, extents,
      Nat.zero_add]
  | case3 start next more ih =>
    rw [List.cons_append, List.cons_append, List.cons_append, extents, ← List.cons_append, ih]

/-- Definitions reach no further than the text. -/
theorem le_of_mem_extents {length : Nat} {starts : List Nat} (h : ∀ s ∈ starts, s < length)
    {extent : Nat × Nat} (hextent : extent ∈ extents length starts) :
    extent.1 < length ∧ extent.2 ≤ length := by
  fun_induction extents length starts with
  | case1 => cases hextent
  | case2 start =>
    rw [List.mem_singleton.mp hextent]
    exact ⟨h start List.mem_cons_self, Nat.le_refl _⟩
  | case3 start next rest ih =>
    rcases List.mem_cons.mp hextent with rfl | hextent
    · exact ⟨h start List.mem_cons_self,
        Nat.le_of_lt (h next (List.mem_cons_of_mem _ List.mem_cons_self))⟩
    · exact ih (fun s hs => h s (List.mem_cons_of_mem start hs)) hextent

/-! ### Definitions -/

/-- The header of a definition in front of a text that is put behind. -/
theorem headerSpan_append (cs ds : List Char) {start stop : Nat} (hstart : start < cs.length)
    (hstop : stop ≤ cs.length) : headerSpan (cs ++ ds) start stop = headerSpan cs start stop := by
  have hne : cs.drop start ≠ [] := fun hnil => by
    rw [List.drop_eq_nil_iff] at hnil
    omega
  rw [headerSpan, headerSpan, List.drop_append_of_le_length (Nat.le_of_lt hstart),
    List.take_append_of_le_length (Nat.le_of_lt hstart)]
  rcases Marker.lengthAt?_append '[' ']' hne ds with ⟨n, hn, hmore⟩ | ⟨hnone, hmore⟩
  · have hle : min (start + n) stop ≤ cs.length := Nat.le_trans (Nat.min_le_right _ _) hstop
    rw [Marker.bracket, hn, hmore]
    dsimp only
    rw [List.take_append_of_le_length hle]
  · rw [Marker.bracket, hnone]
    dsimp only
    cases hlength : (Marker.paired '[' ']').lengthAt? (cs.drop start ++ ds) with
    | none =>
      dsimp only
      rw [List.take_append_of_le_length hstop]
    | some n =>
      -- closed too late, the header ends with the definition all the same
      have hlate := hmore n hlength
      rw [List.length_drop] at hlate
      dsimp only
      rw [Nat.min_eq_right (by omega), List.take_append_of_le_length hstop]

/-- The header of a definition behind a text. -/
theorem headerSpan_shift (cs ds : List Char) (start stop : Nat) :
    headerSpan (cs ++ ds) (start + cs.length) (stop + cs.length) =
      (headerSpan ds start stop).shift (byteLength cs) := by
  have hdrop (n : Nat) : (cs ++ ds).drop (n + cs.length) = ds.drop n := by
    rw [Nat.add_comm, List.drop_append]
    simp
  have htake (n : Nat) :
      byteLength ((cs ++ ds).take (n + cs.length)) = byteLength (ds.take n) + byteLength cs := by
    rw [Nat.add_comm n, List.take_length_add_append, byteLength_append, Nat.add_comm]
  rw [headerSpan, headerSpan, hdrop]
  cases Marker.bracket.lengthAt? (ds.drop start) with
  | none => exact congrArg₂ Span.mk (htake start) (htake stop)
  | some n =>
    dsimp only
    rw [Nat.add_right_comm, Nat.add_min_add_right]
    exact congrArg₂ Span.mk (htake start) (htake _)

end Source

/-- The same report for a text that stands `k` bytes later. -/
def Diagnostic.shift (k : Nat) (d : Diagnostic) : Diagnostic :=
  d.relocate (d.span.shift k)

namespace Story

/-- The same outcome with all reports at another place. -/
def Outcome.relocate (origin : Span) (r : Outcome) : Outcome :=
  { r with diagnostics := r.diagnostics.map (·.relocate origin) }

variable (s : Story) (o o' : Span)

theorem definePattern_relocate (p : Pattern) (reports : List Diagnostic) :
    s.definePattern p o' (reports.map (·.relocate o')) =
      (s.definePattern p o reports).relocate o' := by
  rw [definePattern, definePattern]
  cases s.addPattern p with
  | ok story => rfl
  | error e =>
    dsimp only [Outcome.relocate]
    rw [List.map_append]
    rfl

theorem pageText_relocate (h : Header) (body : List Char) : s.pageText h body o' =
    ((s.pageText h body o).1, (s.pageText h body o).2.map (·.relocate o')) := by
  rw [pageText, pageText]
  cases h.pattern with
  | none => rfl
  | some name =>
    dsimp only
    cases s.patterns.get? name with
    | some p => rfl
    | none => rfl

theorem defaultValue_relocate (h : Header) : defaultValue h o' =
    ((defaultValue h o).1, (defaultValue h o).2.map (·.relocate o')) := by
  rw [defaultValue, defaultValue]
  cases h.init with
  | none => rfl
  | some init =>
    dsimp only
    cases Value.ofLiteral? (String.ofList (Text.trim init)) with
    | ok v => rfl
    | error e => rfl

theorem definePage_relocate (h : Header) (body : List Char) :
    s.definePage h body o' = (s.definePage h body o).relocate o' := by
  rw [definePage, definePage, pageText_relocate s o, defaultValue_relocate o]
  dsimp only
  rw [Page.ofBody_relocate _ _ o]
  dsimp only [Outcome.relocate]
  rw [List.map_append, List.map_append]

/-- A definition does the same wherever it stands, and the same is reported of it. -/
theorem define_relocate (definition : List Char) :
    s.define definition o' = (s.define definition o).relocate o' := by
  rw [define, define]
  cases Text.Marker.bracket.inside? (Text.trimStart definition) with
  | none => rfl
  | some inside =>
    obtain ⟨header, body⟩ := inside
    dsimp only
    cases Header.ofText header with
    | error e => rfl
    | ok h =>
      dsimp only
      split
      · rw [← definePattern_relocate]
        split
        · rfl
        · rfl
      · split
        · rfl
        · exact definePage_relocate s o o' h body

/-- All that is reported of a definition is reported at its place. -/
theorem span_of_mem_define {definition : List Char} {d : Diagnostic}
    (h : d ∈ (s.define definition o).diagnostics) : d.span = o := by
  rw [define_relocate s o o] at h
  obtain ⟨d', -, rfl⟩ := List.mem_map.mp h
  rfl

/-- A definition that stands `k` bytes later. -/
theorem define_shift (definition : List Char) (k : Nat) : s.define definition (o.shift k) =
    { s.define definition o with
      diagnostics := (s.define definition o).diagnostics.map (·.shift k) } := by
  rw [define_relocate s o (o.shift k), Outcome.relocate]
  refine congrArg (fun ds => { s.define definition o with diagnostics := ds })
    (List.map_congr_left fun d hd => ?_)
  rw [Diagnostic.shift, span_of_mem_define s o hd]

end Story

/-! ### Loading -/

namespace Loaded

/-- Take up some definitions of a text, one after the other. -/
def addExtents (l : Loaded) (cs : List Char) (extents : List (Nat × Nat)) : Loaded :=
  extents.foldl (fun l extent => l.add cs extent) l

/-- Take up all definitions of a text without remarks. -/
def addText (l : Loaded) (cs : List Char) : Loaded :=
  l.addExtents cs (Source.extents cs.length (Source.definitionStarts 0 false 0 cs))

/-- Take up the definitions of one more source, and report on them alone. -/
def goOn (l : Loaded) (source : String) : Loaded :=
  addText ⟨l.story, []⟩ (Source.blankRemarks source.toList)

/-- The same with `k` bytes in front, of which something was reported already. -/
def behind (reports : List Diagnostic) (k : Nat) (l : Loaded) : Loaded :=
  ⟨l.story, reports ++ l.diagnostics.map (·.shift k)⟩

/-- A definition in front of a text that is put behind. -/
theorem add_append (l : Loaded) (cs ds : List Char) {extent : Nat × Nat}
    (hstart : extent.1 < cs.length) (hstop : extent.2 ≤ cs.length) :
    l.add (cs ++ ds) extent = l.add cs extent := by
  rw [add, add, Source.define, Source.define, Source.headerSpan_append cs ds hstart hstop,
    List.take_append_of_le_length hstop]

/-- Definitions in front of a text that is put behind. -/
theorem addExtents_append (l : Loaded) (cs ds : List Char) {extents : List (Nat × Nat)}
    (h : ∀ extent ∈ extents, extent.1 < cs.length ∧ extent.2 ≤ cs.length) :
    l.addExtents (cs ++ ds) extents = l.addExtents cs extents := by
  induction extents generalizing l with
  | nil => rfl
  | cons extent extents ih =>
    obtain ⟨hstart, hstop⟩ := h extent List.mem_cons_self
    rw [addExtents, addExtents, List.foldl_cons, List.foldl_cons, add_append l cs ds hstart hstop]
    exact ih _ fun e he => h e (List.mem_cons_of_mem extent he)

/-- A definition behind a text. -/
theorem add_shift (l : Loaded) (reports : List Diagnostic) (cs ds : List Char)
    (extent : Nat × Nat) :
    (l.behind reports (Text.byteLength cs)).add (cs ++ ds) (Source.shiftExtent cs.length extent) =
      (l.add ds extent).behind reports (Text.byteLength cs) := by
  have hpart : ((cs ++ ds).take (extent.2 + cs.length)).drop (extent.1 + cs.length) =
      (ds.take extent.2).drop extent.1 := by
    rw [Nat.add_comm extent.2, List.take_length_add_append, Nat.add_comm extent.1,
      List.drop_append]
    simp
  have hdefine : Source.define (cs ++ ds) l.story (Source.shiftExtent cs.length extent) =
      { Source.define ds l.story extent with
        diagnostics := (Source.define ds l.story extent).diagnostics.map
          (·.shift (Text.byteLength cs)) } := by
    rw [Source.define, Source.define, Source.shiftExtent]
    dsimp only
    rw [hpart, Source.headerSpan_shift, Story.define_shift]
  rw [add, add, behind, behind]
  dsimp only
  rw [hdefine, List.map_append, List.append_assoc]

/-- Definitions behind a text are taken up as they would be without it, but for their places. -/
theorem addExtents_shift (l : Loaded) (reports : List Diagnostic) (cs ds : List Char)
    (extents : List (Nat × Nat)) :
    (l.behind reports (Text.byteLength cs)).addExtents (cs ++ ds)
        (extents.map (Source.shiftExtent cs.length)) =
      (l.addExtents ds extents).behind reports (Text.byteLength cs) := by
  induction extents generalizing l with
  | nil => rfl
  | cons extent extents ih =>
    rw [List.map_cons, addExtents, List.foldl_cons, add_shift]
    exact ih _

/-- Taking up the definitions of two texts that can be told apart. -/
theorem addText_append (l : Loaded) {cs ds : List Char} (hcs : Text.Masked (fun _ => True) cs)
    (hclosed : Source.scanEnd false 0 cs = (false, 0)) {rest : List Nat}
    (hopens : Source.definitionStarts 0 false 0 ds = 0 :: rest) :
    l.addText (cs ++ ds) = (addText ⟨(l.addText cs).story, []⟩ ds).behind
      (l.addText cs).diagnostics (Text.byteLength cs) := by
  have hstarts : Source.definitionStarts 0 false 0 (cs ++ ds) =
      Source.definitionStarts 0 false 0 cs ++ (0 :: rest).map (· + cs.length) := by
    rw [Source.definitionStarts_append hcs (congrArg Prod.snd hclosed),
      Source.definitionStarts_add, congrArg Prod.fst hclosed, hopens]
  have hlt : ∀ s ∈ Source.definitionStarts 0 false 0 cs, s < cs.length := fun s hs => by
    simpa using Source.lt_of_mem_definitionStarts hs
  have hfront := l.addExtents_append cs ds fun _ => Source.le_of_mem_extents hlt
  have hbehind := addExtents_shift ⟨(l.addText cs).story, []⟩ (l.addText cs).diagnostics cs ds
    (Source.extents ds.length (0 :: rest))
  have hstart : behind (l.addText cs).diagnostics (Text.byteLength cs)
      ⟨(l.addText cs).story, []⟩ = l.addText cs := by
    rw [behind, List.map_nil, List.append_nil]
  rw [hstart, ← hopens] at hbehind
  rw [← addText.eq_def _ ds] at hbehind
  rw [← hbehind, addText, hstarts, List.length_append, Nat.add_comm, Source.extents_append,
    addExtents, List.foldl_append, ← hopens]
  exact congrArg (addExtents · _ _) hfront

end Loaded

namespace Story

/-- The text in front of the first definition. -/
def front (cs : List Char) : List Char :=
  cs.take ((Source.definitionStarts 0 false 0 cs).headD cs.length)

/-- The report that something in front of the first definition is ignored. -/
def ignored (front : List Char) : List Diagnostic :=
  if Text.isBlank front then [] else
    [Diagnostic.warning ⟨0, Text.byteLength front⟩ "text before the first definition is ignored"]

/-- Loading is taking up all definitions. -/
theorem load_eq (source : String) : load source =
    Loaded.addText ⟨{}, ignored (front (Source.blankRemarks source.toList))⟩
      (Source.blankRemarks source.toList) :=
  rfl

/-- The text in front of the first definition ends with the first part of a source. -/
theorem front_append {cs ds : List Char} (hcs : Text.Masked (fun _ => True) cs)
    (hclosed : Source.scanEnd false 0 cs = (false, 0)) {rest : List Nat}
    (hopens : Source.definitionStarts 0 false 0 ds = 0 :: rest) : front (cs ++ ds) = front cs := by
  have hstarts := @Source.definitionStarts_append cs hcs 0 false 0 (congrArg Prod.snd hclosed) ds
  rw [Source.definitionStarts_add, congrArg Prod.fst hclosed, hopens] at hstarts
  rw [front, front, hstarts]
  cases hfront : Source.definitionStarts 0 false 0 cs with
  | nil => simp
  | cons start starts =>
    have hlt : start < 0 + cs.length :=
      Source.lt_of_mem_definitionStarts (hfront ▸ List.mem_cons_self)
    rw [Nat.zero_add] at hlt
    exact List.take_append_of_le_length (Nat.le_of_lt hlt)

/-- Loading a source in two parts. The first one ends with a line feed and leaves no quoted text and
no bracket open, and the second one begins with a definition. Then the pages and the patterns are
those of the first part, to which the definitions of the second one are added. What is reported of
these is reported behind the reports on the first part, each at its place in the whole. -/
theorem load_append {s₁ s₂ : String} (hfeed : s₁.toList.getLast? = some '\n')
    (hclosed : Source.scanEnd false 0 (Source.blankRemarks s₁.toList) = (false, 0))
    (hopens : ∃ rest, Source.blankRemarks s₂.toList = '[' :: rest ∧
      Source.opensDefinition rest = true) :
    load (s₁ ++ s₂) = ⟨((load s₁).goOn s₂).story, (load s₁).diagnostics ++
      ((load s₁).goOn s₂).diagnostics.map (·.shift (Text.byteLength s₁.toList))⟩ := by
  obtain ⟨cs, hcs⟩ := List.getLast?_eq_some_iff.mp hfeed
  have hempty : Source.blankRemarks [] = [] := by
    rw [Source.blankRemarks, Text.split, List.map_singleton, Source.blankRemark,
      Text.stripComment, Text.cut, Text.find_nil]
    rfl
  have hfront : Source.blankRemarks s₁.toList = Source.blankRemarks cs ++ ['\n'] := by
    rw [hcs, Source.blankRemarks_append, hempty]
  have hwhole : Source.blankRemarks (s₁ ++ s₂).toList =
      Source.blankRemarks s₁.toList ++ Source.blankRemarks s₂.toList := by
    rw [String.toList_append, hfront, hcs, List.append_assoc, List.append_assoc,
      List.singleton_append, List.singleton_append, Source.blankRemarks_append]
  have hmasked : Text.Masked (fun _ => True) (Source.blankRemarks s₁.toList) := by
    rw [hfront]
    exact Text.masked_of_feed _
  obtain ⟨rest, hrest⟩ : ∃ rest,
      Source.definitionStarts 0 false 0 (Source.blankRemarks s₂.toList) = 0 :: rest := by
    obtain ⟨rest, heq, hopens⟩ := hopens
    refine ⟨Source.definitionStarts 1 false 1 rest, ?_⟩
    rw [heq, Source.definitionStarts_char (by decide), if_pos ⟨rfl, rfl, rfl, hopens⟩]
    rfl
  rw [load_eq, hwhole, front_append hmasked hclosed hrest,
    Loaded.addText_append _ hmasked hclosed hrest, ← load_eq, Source.byteLength_blankRemarks]
  rfl

/-- The front of a house, in which a remark leaves a quotation mark open. -/
def houseFront : String :=
  "A house. // with a hall\n[hall=dark][:look]\"It is [very] dark.\" // \"\n"

/-- The rest of the house, with a second hall, and a cellar that is not finished. -/
def houseRest : String :=
  "[hall=cold][:look]\"It is cold.\"\n[cellar=deep][:enter]!hall=\n"

/-- The house is loaded in two parts. The second hall is refused, 68 bytes behind where it would be
in the second part alone. -/
theorem load_append_house : houseFront.toList.getLast? = some '\n' ∧
    Source.scanEnd false 0 (Source.blankRemarks houseFront.toList) = (false, 0) ∧
    (∃ rest, Source.blankRemarks houseRest.toList = '[' :: rest ∧
      Source.opensDefinition rest = true) ∧
    load (houseFront ++ houseRest) = ⟨((load houseFront).goOn houseRest).story,
      (load houseFront).diagnostics ++ ((load houseFront).goOn houseRest).diagnostics.map
        (·.shift (Text.byteLength houseFront.toList))⟩ ∧
    ((load houseFront).goOn houseRest).story.pages.map (·.name) = ["hall", "cellar"] ∧
    ((load houseFront).goOn houseRest).diagnostics.map (·.span) = [⟨0, 11⟩] := by
  have hfeed : houseFront.toList.getLast? = some '\n' := by decide +kernel
  have hclosed : Source.scanEnd false 0 (Source.blankRemarks houseFront.toList) = (false, 0) := by
    decide +kernel
  have hopens : ∃ rest, Source.blankRemarks houseRest.toList = '[' :: rest ∧
      Source.opensDefinition rest = true :=
    ⟨houseRest.toList.drop 1, by decide +kernel, by decide +kernel⟩
  exact ⟨hfeed, hclosed, hopens, load_append hfeed hclosed hopens, by decide +kernel,
    by decide +kernel⟩

end Story

end Gamebook
