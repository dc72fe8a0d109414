import Gamebook.Proofs.Script.Complaints
import Gamebook.Proofs.Script.Lexemes
import Gamebook.Proofs.Script.Reports
import Gamebook.Proofs.Text.Bytes

/-!
# Where errors are shown

An error is found in one of three texts: among the tokens behind the mark of a segment, in the body
between its brackets, or in the script itself. Its span is counted in bytes of the whole script.

Wherever it was found, the script has at that span the text that the error is about, and an error of
a segment does not leave its body (`Chain.ofText_points`). The one exception is the error about a
body without a mark. It is found in the body and moved like one found behind a mark, which is a byte
too far: it leaves out the first byte of the body, and takes in the closing bracket.
-/

namespace Gamebook.Script

open Text

/-! ### What an error is about -/

/-- Whether an error is about a text: a character or a token is all of it, and a numeral that is out
of range has its minus sign in front. -/
def SyntaxError.Names : SyntaxError → List Char → Prop
  | .unexpectedCharacter c, part => part = [c]
  | .unexpected (some t) _, part => (Lexeme.token t).Takes part
  | .unexpected none _, part => part = []
  | .badInteger numeral, part => ∃ sign word, part = sign ++ word ∧
      (Lexeme.token (.word numeral)).Takes word ∧
      (sign = [] ∨ ∃ gap, sign = '-' :: gap ∧ ∀ c ∈ gap, isGap c = true)
  | .unmarkedSegment body, part => part = body.toList
  | .missingSegment, part => Marker.bracket.lengthAt? part = none
  | .badConnector c, part => part = [c] ∧ isConnector c = false

/-- Whether an error names the text at its span, in a text that starts at an offset. -/
def Shows (start : Nat) (cs : List Char) (e : Located SyntaxError) : Prop :=
  ∃ front part behind, cs = front ++ (part ++ behind) ∧
    e.span = Span.ofLength (start + byteLength front) (byteLength part) ∧ e.value.Names part

namespace Shows

variable {start : Nat} {cs : List Char} {e : Located SyntaxError}

/-- A text may have another one in front and one behind. -/
theorem within {front : List Char} (h : Shows (start + byteLength front) cs e)
    (behind : List Char) : Shows start (front ++ (cs ++ behind)) e := by
  obtain ⟨before, part, after, rfl, hspan, hnames⟩ := h
  refine ⟨front ++ before, part, after ++ behind, by simp only [List.append_assoc], ?_, hnames⟩
  rw [hspan, byteLength_append, Nat.add_assoc]

theorem mono {ds : List Char} (h : Shows start cs e) (hcs : cs <+: ds) : Shows start ds e := by
  obtain ⟨behind, rfl⟩ := hcs
  have hstart : Shows (start + byteLength []) cs e := h
  exact hstart.within behind

theorem shift (h : Shows 0 cs e) (offset : Nat) :
    Shows offset cs ⟨e.value, e.span.shift offset⟩ := by
  obtain ⟨front, part, behind, hcs, hspan, hnames⟩ := h
  refine ⟨front, part, behind, hcs, ?_, hnames⟩
  rw [hspan, Span.shift, Span.ofLength, Span.ofLength, Span.mk.injEq]
  dsimp only
  omega

/-- A span goes forward, and does not leave the text. -/
theorem bounds (h : Shows start cs e) : start ≤ e.span.start ∧ e.span.start ≤ e.span.stop ∧
    e.span.stop ≤ start + byteLength cs := by
  obtain ⟨front, part, behind, rfl, hspan, -⟩ := h
  rw [hspan, Span.ofLength, byteLength_append, byteLength_append]
  dsimp only
  omega

/-- The text at the span. -/
theorem exists_slice? {script : String} (h : Shows 0 script.toList e) :
    ∃ part, slice? script e.span.start e.span.stop = some part ∧ e.value.Names part := by
  obtain ⟨front, part, behind, hcs, hspan, hnames⟩ := h
  have hat : At script (0 + byteLength front) (part ++ behind) := by
    have hstart := At.start script
    rw [hcs] at hstart
    exact hstart.append
  rw [hspan]
  exact ⟨part, hat.slice?_eq, hnames⟩

end Shows

/-! ### Tokens of a body -/

theorem Lexeme.Takes.eq_singleton {c : Char} {part : List Char}
    (h : (Lexeme.unexpected c).Takes part) : part = [c] := by
  obtain ⟨d, rest, rfl, -, hread⟩ := h
  rw [Lexeme.ofText] at hread
  split at hread
  next => cases hread
  next =>
    split at hread
    next =>
      obtain ⟨hvalue, hlength⟩ := Prod.mk.inj hread
      rw [List.eq_nil_of_length_eq_zero hlength.symm]
      exact congrArg ([·]) (Lexeme.unexpected.inj hvalue)
    next => cases hread

/-- There is one way to write a minus sign. -/
theorem Lexeme.Takes.eq_minus {part : List Char} (h : (Lexeme.token .minus).Takes part) :
    part = ['-'] := by
  obtain ⟨d, rest, rfl, -, hread⟩ := h
  have hspelling : ∀ entry ∈ operators, entry.2 = .minus → entry.1 = ['-'] := by decide
  rw [Lexeme.ofText] at hread
  split at hread
  next spelling t hfind =>
    obtain ⟨hvalue, hlength⟩ := Prod.mk.inj hread
    obtain rfl : spelling = ['-'] :=
      hspelling _ (List.mem_of_find?_eq_some hfind) (Lexeme.token.inj hvalue)
    have hhit := List.find?_some hfind
    rw [List.eq_nil_of_length_eq_zero hlength.symm] at hhit ⊢
    rw [List.isPrefixOf_iff_prefix, List.cons_prefix_cons] at hhit
    rw [hhit.1]
  next => split at hread <;> cases hread

/-- A lexeme stands where its span says. -/
theorem takes_of_mem {start : Nat} {cs : List Char} {l : Located Lexeme}
    (h : l ∈ lexemesFrom start cs) : ∃ front part behind, cs = front ++ (part ++ behind) ∧
      l.span = Span.ofLength (start + byteLength front) (byteLength part) ∧
      l.value.Takes part := by
  obtain ⟨ls, ms, hsplit⟩ := List.append_of_mem h
  obtain ⟨front, behind, rfl, hbehind⟩ := lexemesFrom_behind hsplit
  obtain ⟨gap, part, more, rfl, -, htakes, hspan, -⟩ := lexemesFrom_first hbehind
  refine ⟨front ++ gap, part, more, (List.append_assoc ..).symm, ?_, htakes⟩
  rw [hspan, byteLength_append, ← Nat.add_assoc]
  rfl

theorem mem_tokensOf {ls : List (Located Lexeme)} {t : Located Token} (h : t ∈ tokensOf ls) :
    ⟨.token t.value, t.span⟩ ∈ ls := by
  obtain ⟨⟨value, span⟩, hl, ht⟩ := List.mem_filterMap.mp h
  cases value with
  | token u =>
    cases ht
    exact hl
  | unexpected c => cases ht

theorem mem_unexpectedOf {ls : List (Located Lexeme)} {c : Located Char}
    (h : c ∈ unexpectedOf ls) : ⟨.unexpected c.value, c.span⟩ ∈ ls := by
  obtain ⟨⟨value, span⟩, hl, hc⟩ := List.mem_filterMap.mp h
  cases value with
  | token t => cases hc
  | unexpected d =>
    cases hc
    exact hl

/-- A numeral that is out of range stands where its span says. -/
theorem shows_badInteger {cs : List Char} (hcs : unexpectedOf (lexemes cs) = []) {numeral : String}
    {span : Span} (h : NumeralAt (tokensOf (lexemes cs)) numeral span) :
    Shows 0 cs ⟨.badInteger numeral, span⟩ := by
  obtain ⟨before, word, after, hword, hstop, hplace⟩ := h
  rcases hplace with ⟨htokens, hstart⟩ | ⟨minus, htokens, hminus, hstart⟩
  · obtain ⟨front, part, behind, hsplit, hspan, htakes⟩ :=
      takes_of_mem (mem_tokensOf (htokens ▸ List.mem_append_right before List.mem_cons_self))
    refine ⟨front, part, behind, hsplit, ?_, [], part, rfl, hword ▸ htakes, .inl rfl⟩
    rw [← hspan, Span.mk.injEq]
    exact ⟨hstart, hstop⟩
  · -- nothing but gaps stands between the sign and the word
    have hlexemes := eq_map_tokensOf hcs
    rw [htokens, List.map_append, List.map_cons, List.map_cons] at hlexemes
    obtain ⟨front, behind, rfl, hbehind⟩ := lexemesFrom_behind hlexemes
    obtain ⟨gap, sign, more, rfl, -, hsign, hfirst, hmore⟩ := lexemesFrom_first hbehind
    obtain ⟨between, part, rest, rfl, hgaps, htakes, hsecond, -⟩ := lexemesFrom_first hmore
    dsimp only at hsign htakes hfirst hsecond
    rw [hminus] at hsign
    rw [hword] at htakes
    refine ⟨front ++ gap, sign ++ between ++ part, rest, by simp only [List.append_assoc], ?_,
      sign ++ between, part, rfl, htakes, .inr ⟨between, ?_, hgaps⟩⟩
    · rw [Span.ofLength, Span.mk.injEq, hstart, hstop, hfirst, hsecond]
      simp only [byteLength_append]
      omega
    · rw [hsign.eq_minus]
      rfl

/-- A report is shown at the tokens that it is about. -/
theorem shows_report {cs : List Char} (hcs : unexpectedOf (lexemes cs) = []) {r : Report}
    (h : r.Within (tokensOf (lexemes cs))) : Shows 0 cs (r.error (byteLength cs)) := by
  obtain ⟨rest, complaint⟩ := r
  cases complaint with
  | badInteger numeral span => exact shows_badInteger hcs (h.2 numeral span rfl)
  | expected es =>
    cases rest with
    | nil => exact ⟨cs, [], [], by simp, by simp [Report.error, Span.ofLength], rfl⟩
    | cons t ts => exact takes_of_mem (mem_tokensOf (h.1.subset List.mem_cons_self))

/-! ### Bodies -/

/-- The errors of a text that is read as a whole show what they name. -/
theorem shows_parseAll {α : Type} {p : Parser α} (hp : p.Keeps) {cs : List Char}
    {es : List (Located SyntaxError)} (h : parseAll p cs = .error es) :
    ∀ e ∈ es, Shows 0 cs e ∧ ∀ body, e.value ≠ .unmarkedSegment body := by
  rw [parseAll] at h
  dsimp only at h
  split at h
  next c more hunexpected =>
    cases h
    intro e he
    obtain ⟨d, hd, rfl⟩ := List.mem_map.mp he
    rw [← hunexpected] at hd
    obtain ⟨front, part, behind, hsplit, hspan, htakes⟩ := takes_of_mem (mem_unexpectedOf hd)
    refine ⟨⟨front, part, behind, hsplit, hspan, htakes.eq_singleton⟩, fun body hbody => ?_⟩
    cases hbody
  next hunexpected =>
    split at h
    next => cases h
    next =>
      cases h
      intro e he
      obtain ⟨r, hr, rfl⟩ := Option.map_eq_some_iff.mp (Option.mem_toList.mp he)
      refine ⟨shows_report hunexpected ((hp _).2 r hr), fun body hbody => ?_⟩
      rw [Report.error] at hbody
      split at hbody <;> cases hbody

/-- What an error in a body shows: something behind the mark, or the body, if that has no mark. -/
theorem mem_bodyErrors {start : Nat} {body : List Char} {e : Located SyntaxError}
    (h : e ∈ bodyErrors start body) :
    (Shows (start + 1) body e ∧ ∀ body, e.value ≠ .unmarkedSegment body) ∨
      e = ⟨.unmarkedSegment (String.ofList body), Span.ofLength (start + 2) (byteLength body)⟩ := by
  have hmarked (mark : Char) (hmark : mark.utf8Size = 1) {inner : List Char}
      {e' : Located SyntaxError} (he' : Shows 0 inner e') :
      Shows (start + 1) (mark :: inner) ⟨e'.value, e'.span.shift (start + 2)⟩ := by
    have hbytes : start + 2 = start + 1 + byteLength [mark] := by
      rw [byteLength_cons, byteLength_nil, hmark]
    have hshift := he'.shift (start + 2)
    rw [hbytes] at hshift ⊢
    have hwithin := hshift.within []
    rwa [List.append_nil, List.singleton_append] at hwithin
  rw [bodyErrors] at h
  split at h
  next => cases h
  next es hread =>
    obtain ⟨e', he', rfl⟩ := List.mem_map.mp h
    cases Segment.unread_of_ofText hread with
    | condition hcondition =>
      have hshows := shows_parseAll Parser.keeps_condition hcondition e' he'
      exact .inl ⟨hmarked '?' rfl hshows.1, hshows.2⟩
    | @instruction rest _ haction =>
      have hshows := shows_parseAll Parser.keeps_action haction e' he'
      exact .inl ⟨hmarked '!' rfl (hshows.1.mono (prefix_splitBreaks rest)), hshows.2⟩
    | unmarked =>
      rw [List.mem_singleton] at he'
      subst he'
      exact .inr (congrArg _ (congrArg₂ Span.mk (Nat.zero_add _) (Nat.add_comm ..)))

/-! ### Segments -/

/-- Whether a segment is read in a text that starts at an offset, given where its opening bracket
stands and what stands between its brackets. Between two segments stands a connector. -/
inductive SegmentAt : Nat → List Char → Nat → List Char → Prop
  /-- The segment with which the text begins. -/
  | first {start : Nat} {body behind : List Char} :
      Marker.bracket.lengthAt? ('[' :: (body ++ ']' :: behind)) = some (body.length + 2) →
      SegmentAt start ('[' :: (body ++ ']' :: behind)) start body
  /-- A segment behind another one. -/
  | later {start place : Nat} {body other behind : List Char} {c : Char} :
      Marker.bracket.lengthAt? ('[' :: (other ++ ']' :: c :: behind)) = some (other.length + 2) →
      isConnector c = true → SegmentAt (start + byteLength other + 3) behind place body →
      SegmentAt start ('[' :: (other ++ ']' :: c :: behind)) place body

theorem utf8Size_of_isConnector {c : Char} (h : isConnector c = true) : c.utf8Size = 1 := by
  rcases Bool.or_eq_true_iff.mp h with hc | hc
  · rw [eq_of_beq hc]
    rfl
  · rw [eq_of_beq hc]
    rfl

/-- The body of a segment stands between its brackets. -/
theorem SegmentAt.exists_split {start place : Nat} {cs body : List Char}
    (h : SegmentAt start cs place body) : ∃ front behind,
      cs = front ++ '[' :: (body ++ ']' :: behind) ∧ place = start + byteLength front := by
  induction h with
  | @first start body behind => exact ⟨[], behind, rfl, rfl⟩
  | @later start place body other behind c _ hc _ ih =>
    obtain ⟨front, rest, rfl, rfl⟩ := ih
    refine ⟨'[' :: (other ++ [']']) ++ c :: front, rest, by simp, ?_⟩
    rw [byteLength_append, byteLength_bracketed, byteLength_cons, utf8Size_of_isConnector hc]
    omega

/-- What is shown in the body of a segment is shown in the text around it. -/
theorem SegmentAt.shows {start place : Nat} {cs body : List Char} {e : Located SyntaxError}
    (h : SegmentAt start cs place body) (he : Shows (place + 1) body e) : Shows start cs e := by
  obtain ⟨front, behind, rfl, rfl⟩ := h.exists_split
  have hbytes : start + byteLength front + 1 = start + byteLength (front ++ ['[']) := by
    rw [byteLength_append, ← Nat.add_assoc]
    rfl
  rw [hbytes] at he
  simpa using he.within (']' :: behind)

/-- Behind the body of a segment its bracket is left. -/
theorem SegmentAt.lt {start place : Nat} {cs body : List Char}
    (h : SegmentAt start cs place body) :
    place + 1 + byteLength body < start + byteLength cs := by
  obtain ⟨front, behind, rfl, rfl⟩ := h.exists_split
  have hsplit : '[' :: (body ++ ']' :: behind) = '[' :: (body ++ [']']) ++ behind := by simp
  rw [hsplit, byteLength_append, byteLength_append, byteLength_bracketed]
  omega

/-- An error of a text is one in the body of a segment, or it ends the reading and shows why. -/
theorem mem_segmentsFrom {connector : Connector} {start : Nat} {cs : List Char}
    {e : Located SyntaxError} (h : e ∈ (segmentsFrom connector start cs).2) :
    (e.value.endsReading = true ∧ Shows start cs e) ∨
      ∃ place body, SegmentAt start cs place body ∧ e ∈ bodyErrors place body := by
  have hfirst {start : Nat} {body behind : List Char} (hn : Marker.bracket.lengthAt?
      ('[' :: (body ++ ']' :: behind)) = some (body.length + 2)) (he : e ∈ bodyErrors start body) :
      ∃ place inner, SegmentAt start ('[' :: (body ++ ']' :: behind)) place inner ∧
        e ∈ bodyErrors place inner := ⟨start, body, .first hn, he⟩
  induction cs using bracket_induction generalizing connector start with
  | missing cs hn =>
    rw [segmentsFrom, hn] at h
    obtain rfl := List.mem_singleton.mp h
    exact .inl ⟨rfl, [], cs, [], by simp, rfl, hn⟩
  | last body hn =>
    rw [segmentsFrom_pair hn] at h
    exact .inr (hfirst hn h)
  | behind body c rest hn ih =>
    rw [segmentsFrom_pair hn] at h
    dsimp only at h
    split at h
    next hc =>
      rcases List.mem_append.mp h with he | he
      · exact .inr (hfirst hn he)
      · rcases ih he with ⟨hends, hshows⟩ | ⟨place, inner, hplace, hinner⟩
        · refine .inl ⟨hends, ?_⟩
          have hbytes : start + byteLength body + 3 =
              start + byteLength ('[' :: (body ++ [']']) ++ [c]) := by
            rw [byteLength_append, byteLength_bracketed, byteLength_cons,
              utf8Size_of_isConnector hc, byteLength_nil]
            omega
          rw [hbytes] at hshows
          simpa using hshows.within []
        · exact .inr ⟨place, inner, .later hn hc hplace, hinner⟩
    next hc =>
      rcases List.mem_append.mp h with he | he
      · exact .inr (hfirst hn he)
      · obtain rfl := List.mem_singleton.mp he
        refine .inl ⟨rfl, '[' :: (body ++ [']']), [c], rest, by simp, ?_, rfl,
          Bool.eq_false_iff.mpr hc⟩
        rw [byteLength_bracketed]
        rfl

/-! ### Scripts -/

theorem mem_segmentsFrom_of_mem {script : String} {e : Located SyntaxError}
    (h : e ∈ (Chain.ofText script).2) : e ∈ (segmentsFrom .and 0 script.toList).2 := by
  rw [Chain.ofText] at h
  split at h
  next => cases h
  next =>
    split at h
    next errors hread => exact hread ▸ h
    next first rest errors hread => exact hread ▸ h

/-- Whether an error of a script points at what it is about: it names the text at its span, and if
it is an error of a segment, it does not leave the body between the brackets. -/
structure Points (script : String) (e : Located SyntaxError) : Prop where
  named : ∃ part, slice? script e.span.start e.span.stop = some part ∧ e.value.Names part
  inside : ∀ place body, SegmentAt 0 script.toList place body → e ∈ bodyErrors place body →
    place + 1 ≤ e.span.start ∧ e.span.stop ≤ place + 1 + byteLength body

/-- **Errors point at what they are about.** The span of an error goes forward and does not leave
the script. An error that does not end the reading is one in the body of a segment. The script has
at the span what the error names, and an error of a segment lies in the body between its brackets,
with one exception: that there is no mark is shown one byte behind the place of the body. -/
theorem Chain.ofText_points {script : String} {e : Located SyntaxError}
    (h : e ∈ (Chain.ofText script).2) :
    e.span.start ≤ e.span.stop ∧ e.span.stop ≤ script.utf8ByteSize ∧
    (e.value.endsReading = false →
      ∃ place body, SegmentAt 0 script.toList place body ∧ e ∈ bodyErrors place body) ∧
    (Points script e ↔ ∀ body, e.value ≠ .unmarkedSegment body) ∧
    ∀ body, e.value = .unmarkedSegment body → ∃ place,
      SegmentAt 0 script.toList place body.toList ∧
        e.span = Span.ofLength (place + 2) (byteLength body.toList) := by
  have hsize : 0 + byteLength script.toList = script.utf8ByteSize := by
    rw [Nat.zero_add, utf8ByteSize_eq]
  rcases mem_segmentsFrom (mem_segmentsFrom_of_mem h) with
    ⟨hends, hshows⟩ | ⟨place, body, hplace, hbody⟩
  · -- an error that ends the reading is none of a segment
    have hmarked : ∀ body, e.value ≠ .unmarkedSegment body := fun body hvalue => by
      rw [hvalue] at hends
      cases hends
    have hnone : ∀ place body, e ∉ bodyErrors place body := fun place body hbody =>
      Bool.false_ne_true ((endsReading_of_mem_bodyErrors hbody).symm.trans hends)
    refine ⟨hshows.bounds.2.1, hsize ▸ hshows.bounds.2.2, fun hgoes => ?_,
      iff_of_true ⟨hshows.exists_slice?, fun _ _ _ hbody => absurd hbody (hnone _ _)⟩ hmarked,
      fun body hvalue => absurd hvalue (hmarked body)⟩
    rw [hends] at hgoes
    cases hgoes
  · have hsegment (_ : e.value.endsReading = false) : ∃ place body,
        SegmentAt 0 script.toList place body ∧ e ∈ bodyErrors place body :=
      ⟨place, body, hplace, hbody⟩
    rcases mem_bodyErrors hbody with ⟨hinner, hmarked⟩ | rfl
    · have hshows := hplace.shows hinner
      refine ⟨hshows.bounds.2.1, hsize ▸ hshows.bounds.2.2, hsegment,
        iff_of_true ⟨hshows.exists_slice?, fun place' body' _ hbody' => ?_⟩ hmarked,
        fun body hvalue => absurd hvalue (hmarked body)⟩
      rcases mem_bodyErrors hbody' with ⟨hinner', -⟩ | rfl
      · exact ⟨hinner'.bounds.1, hinner'.bounds.2.2⟩
      · exact absurd rfl (hmarked _)
    · have hlt := hplace.lt
      rw [hsize] at hlt
      refine ⟨Nat.le_add_right _ _, by dsimp only [Span.ofLength]; omega, hsegment,
        iff_of_false (fun hpoints => ?_) fun hmarked => hmarked _ rfl, fun body' hvalue => ?_⟩
      · have hinside := (hpoints.inside place body hplace hbody).2
        dsimp only [Span.ofLength] at hinside
        omega
      · obtain rfl := SyntaxError.unmarkedSegment.inj hvalue
        rw [String.toList_ofList]
        exact ⟨place, hplace, rfl⟩

/-- One parenthesis too many, behind a character of two bytes, and a segment without a mark. -/
theorem Chain.ofText_points_parenthesis :
    let script := "[?é)]&[z]"
    let parenthesis : Located SyntaxError :=
      ⟨.unexpected (some .closeParen) [.word, .token .colon, .arguments, .token .comma, .operator,
        .comparison, .endOfInput], ⟨4, 5⟩⟩
    let unmarked : Located SyntaxError := ⟨.unmarkedSegment "z", ⟨9, 10⟩⟩
    (Chain.ofText script).2 = [parenthesis, unmarked] ∧
      Points script parenthesis ∧ ¬ Points script unmarked := by
  intro script parenthesis unmarked
  have herrors : (Chain.ofText script).2 = [parenthesis, unmarked] := by decide +kernel
  obtain ⟨-, -, -, hparenthesis, -⟩ :=
    Chain.ofText_points (herrors ▸ List.mem_cons_self : parenthesis ∈ (Chain.ofText script).2)
  obtain ⟨-, -, -, hunmarked, -⟩ := Chain.ofText_points
    (herrors ▸ List.mem_cons_of_mem _ List.mem_cons_self : unmarked ∈ (Chain.ofText script).2)
  exact ⟨herrors, hparenthesis.mpr nofun, fun hpoints => hunmarked.mp hpoints "z" rfl⟩

/-- The text at the span of the error about `[x]` is the closing bracket, and the span of the one
about `[é]` begins inside of a character. -/
theorem Chain.ofText_points_bracket :
    (Chain.ofText "[x]").2 = [⟨.unmarkedSegment "x", ⟨2, 3⟩⟩] ∧
      Text.slice? "[x]" 2 3 = some [']'] ∧
      ¬ Points "[x]" ⟨.unmarkedSegment "x", ⟨2, 3⟩⟩ ∧
      (Chain.ofText "[é]").2 = [⟨.unmarkedSegment "é", ⟨2, 4⟩⟩] ∧
      Text.slice? "[é]" 2 4 = none := by
  refine ⟨by decide +kernel, by decide +kernel, fun hpoints => ?_, by decide +kernel,
    by decide +kernel⟩
  obtain ⟨part, hslice, hnames⟩ := hpoints.named
  have hbracket : Text.slice? "[x]" 2 3 = some [']'] := by decide +kernel
  rw [show part = [']'] from Option.some.inj (hslice.symm.trans hbracket)] at hnames
  cases hnames

end Gamebook.Script
