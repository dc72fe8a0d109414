import Gamebook.Proofs.Page.Scripts
import Gamebook.Proofs.Page.Wording
import Gamebook.Proofs.Story.Append
import Gamebook.Proofs.Text.Quotes

/-!
# Texts of pages

Only a quote adds a text block to a page, and the block shows what stands up to the next quote. So
the texts of a page are the quoted texts of its body, in their order (`Page.texts_ofBody`), as long
as the reader of statements and the reader of quotes do not lose each other: no statement begins
with a backslash, and no bracket holds a quote (`Draft.orderly`). A text outside of any verb is
reported and left out.

A body is cleaned before it is read. Together with what cleaning does to quoted texts this says what
a page shows of the texts that an author wrote (`Page.texts_ofBody_clean`).
-/

namespace Gamebook

open Text (texts quoteParts)

/-! ### Texts among blocks -/

/-- The texts among some blocks. -/
def shownTexts (blocks : List Block) : List String :=
  blocks.filterMap fun b => if b.isExecuted then none else some b.expression

/-- What is below a block has no part in its text. -/
theorem shownTexts_modify (below : List Nat → List Nat) (blocks : List Block) (parent : Nat) :
    shownTexts (blocks.modify parent fun b => { b with children := below b.children }) =
      shownTexts blocks := by
  induction blocks generalizing parent with
  | nil => rw [List.modify_nil]
  | cons b blocks ih =>
    cases parent with
    | zero => rfl
    | succ parent =>
      have hrest := ih parent
      rw [shownTexts, shownTexts] at hrest
      rw [List.modify_succ_cons, shownTexts, shownTexts, List.filterMap_cons, List.filterMap_cons,
        hrest]

namespace Page

/-- The texts of a page. -/
def texts (p : Page) : List String :=
  shownTexts p.blocks

theorem texts_insertChild (p : Page) (parent : Nat) (b : Block) :
    (p.insertChild parent b).1.texts = p.texts ++ shownTexts [b] := by
  have hadded := shownTexts_modify (fun children => children ++ [p.blocks.length]) p.blocks parent
  rw [texts, insertChild, shownTexts, List.filterMap_append]
  exact congrArg (· ++ shownTexts [b]) hadded

end Page

namespace Draft

/-! ### Statements -/

theorem Settles.texts {d d' : Draft} (h : Settles d d') : d'.page.texts = d.page.texts := by
  rw [Page.texts, Page.texts, h.blocks]

theorem texts_addBlock (d : Draft) (v : OpenVerb) (b : Block) :
    (d.addBlock v b).1.page.texts = d.page.texts ++ shownTexts [b] :=
  Page.texts_insertChild d.page v.scope b

/-- Only a quote adds a text. -/
theorem texts_step (d : Draft) {c : Char} (hc : c ≠ '"') (rest : List Char) :
    (d.step c rest).1.page.texts = d.page.texts := by
  obtain ⟨e, hsettles, hchange⟩ := stepped_step d c rest
  refine Eq.trans ?_ hsettles.texts
  -- a script is no text
  have hscript {p : Nat} {b : Block} (hb : b.isExecuted) :
      (e.page.insertChild p b).1.texts = e.page.texts := by
    simp [Page.texts_insertChild, shownTexts, hb]
  generalize (d.step c rest).1 = d', d.above c rest = a at *
  cases hchange with
  | nothing | pend | close => rfl
  | put _ hputs =>
    cases hputs with
    | text => exact absurd rfl hc
    | instruction | condition | otherwise => exact hscript rfl
  | opened =>
    rw [page_opened]
    exact hscript rfl

/-! ### What is left of a body -/

/-- Whether no statement begins with a backslash, and no bracket holds a quote. -/
def orderly (d : Draft) : List Char → Bool
  | [] => true
  | c :: rest =>
    let (d, n) := d.step c rest
    c != '\\' && (c != '[' || !(rest.take n).contains '"') && d.orderly (rest.drop n)
termination_by cs => cs.length
decreasing_by
  simp only [List.length_drop, List.length_cons]
  omega

/-- Behind a run of characters that start no statement, the same parts are left, but for the
first. -/
theorem tail_drop_statementLength (cs : List Char) :
    (quoteParts (cs.drop (statementLength cs))).tail = (quoteParts cs).tail := by
  have hhit : ∀ rest : List Char, Text.startsWithOneOf statementStarts ('"' :: rest) = true :=
    fun _ => rfl
  rw [statementLength]
  cases hfind : Text.find (Text.startsWithOneOf statementStarts) cs with
  | none =>
    rw [Option.getD_none, List.drop_length]
    exact (Text.unquoted_of_find hhit hfind).symm
  | some n =>
    have hmasked := Text.masked_take_of_find hhit hfind
    rw [Option.getD_some, ← Text.tail_append hmasked (cs.drop n), List.take_append_drop]

theorem tail_cons {c : Char} (hc : c ≠ '\\') (hquote : c ≠ '"') (cs : List Char) :
    (quoteParts (c :: cs)).tail = (quoteParts cs).tail :=
  Text.tail_append (.char hc hquote .nil) cs

/-- No escape is open behind the names of a declaration. -/
theorem masked_declarations {d : Draft} {cs behind : List Char} {names : List String}
    (hread : (d.declarations [] cs).2 = some (names, behind)) :
    ∃ front, Text.Masked (fun _ => True) front ∧ cs = front ++ behind := by
  refine declarations_rule
    (P := fun _ left => ∃ front, Text.Masked (fun _ => True) front ∧ cs = front ++ left) ?_
    ⟨[], .nil, rfl⟩ hread
  rintro _ rest n hclose ⟨front, hfront, rfl⟩
  have hname := Text.masked_take_of_findClose hclose
  have hmore : ∃ front', Text.Masked (fun _ => True) front' ∧
      front ++ '[' :: ':' :: rest = front' ++ (':' :: rest).drop n :=
    ⟨front ++ '[' :: (':' :: rest).take n, hfront.append (.char (by decide) trivial hname), by simp⟩
  exact ⟨hmore, hmore⟩

/-- Behind a statement that is no text, the same parts are left but for the first, unless the
statement begins with a backslash or is a bracket with a quote in it. -/
theorem tail_behind_step (d : Draft) {c : Char} (hc : c ≠ '\\') (hquote : c ≠ '"')
    (rest : List Char) (h : c = '[' → '"' ∉ rest.take (d.step c rest).2) :
    (quoteParts (rest.drop (d.step c rest).2)).tail = (quoteParts (c :: rest)).tail := by
  have hreads := reads_step d c rest
  rw [tail_cons hc hquote]
  generalize (d.step c rest).2 = n at *
  cases hreads with
  | none => rfl
  | run => exact tail_drop_statementLength rest
  | all hopening =>
    have hunquoted := h (hopening.resolve_left hquote)
    rw [List.take_length] at hunquoted
    rw [List.drop_length]
    exact (Text.Unquoted.of_not_mem hunquoted).symm
  | text => exact absurd rfl hquote
  | bracket hclose => exact Text.tail_drop (Text.masked_take_of_findClose hclose) (h rfl)
  | @names rest behind names hread =>
    obtain ⟨front, hfront, hsplit⟩ := masked_declarations hread
    cases front with
    | nil =>
      obtain rfl : '[' :: rest = behind := hsplit
      rw [List.length_cons, Nat.sub_eq_zero_of_le (Nat.le_succ _)]
      rfl
    | cons c front =>
      obtain ⟨rfl, rfl⟩ := List.cons.inj hsplit
      have hlength : (front.append behind).length - behind.length = front.length := by
        rw [List.append_eq, List.length_append, Nat.add_sub_cancel]
      rw [hlength] at h ⊢
      refine Text.tail_drop ?_ (h rfl)
      rw [List.append_eq, List.take_left]
      exact (hfront.of_char (by decide)).2
  | @brace c rest behind n _ hn hbehind =>
    have hdrop : (quoteParts (rest.drop n)).tail = (quoteParts rest).tail := by
      rcases hn with rfl | rfl
      · rfl
      · exact tail_drop_statementLength rest
    rw [← hdrop, ← List.drop_drop, hbehind]
    exact (tail_cons (by decide) (by decide) behind).symm

/-! ### Statements with text -/

/-- The quoted texts of what is left of a body, as they are read. -/
def readings (cs : List Char) : List String :=
  (texts (quoteParts cs)).map fun text => String.ofList (Text.unescape text)

/-- A text that is not ended is reported, and takes the rest. -/
theorem text_unterminated (d : Draft) {rest : List Char}
    (h : Text.findClose '"' '"' 0 rest = none) :
    d.text ('"' :: rest) = (d.report ('"' :: rest) .unterminatedText, rest.length) := by
  rw [Draft.text, Text.Marker.textBlock, Text.Marker.lengthAt?_paired, h]
  rfl

/-- A text is read up to the next quote, and belongs to the verb at hand. -/
theorem text_terminated (d : Draft) {part rest : List Char}
    (h : Text.findClose '"' '"' 0 (part ++ '"' :: rest) = some (part.length + 1)) :
    d.text ('"' :: (part ++ '"' :: rest)) =
      (d.verb.elim (d.report ('"' :: (part ++ '"' :: rest)) .textOutsideVerb) fun v =>
        (d.addBlock v (.text (String.ofList (Text.unescape part)))).1, part.length + 1) := by
  rw [Draft.text, Text.Marker.textBlock, Text.Marker.lengthAt?_paired, h, Option.map_some]
  dsimp only
  rw [Nat.add_sub_cancel, List.take_succ_cons, List.drop_succ_cons, List.drop_zero, List.take_left]
  cases d.verb <;> rfl

/-- One statement shows the text with which what is left of the body begins, if it does. Unless it
is reported as an error, the text ends and belongs to a verb. -/
theorem texts_step_shown (d : Draft) {c : Char} (hc : c ≠ '\\') (rest : List Char)
    (h : c = '[' → '"' ∉ rest.take (d.step c rest).2) :
    ∃ shown, (d.step c rest).1.page.texts = d.page.texts ++ shown ∧
      (shown ++ readings (rest.drop (d.step c rest).2)).Sublist (readings (c :: rest)) ∧
      (¬ (d.step c rest).1.Failed →
        shown ++ readings (rest.drop (d.step c rest).2) = readings (c :: rest) ∧
        (Text.Closed (rest.drop (d.step c rest).2) → Text.Closed (c :: rest))) := by
  by_cases hquote : c = '"'
  · subst hquote
    have hstep : d.step '"' rest = d.text ('"' :: rest) := rfl
    have hparts : quoteParts ('"' :: rest) = [] :: quoteParts rest := rfl
    rw [hstep]
    rcases Text.quoteParts_cases rest with hsingle | ⟨part, behind, hpart, rfl⟩
    · have hrest : Text.Unquoted rest := by rw [Text.Unquoted, hsingle, List.tail_cons]
      rw [text_unterminated d (hrest.findClose 0), List.drop_length]
      refine ⟨[], (List.append_nil _).symm, List.nil_sublist _, fun hfailed => ?_⟩
      exact absurd ⟨_, List.mem_append_right _ List.mem_cons_self, rfl⟩ hfailed
    · have hdrop : (part ++ '"' :: behind).drop (part.length + 1) = behind :=
        List.drop_length_add_append 1
      have hread : readings ('"' :: (part ++ '"' :: behind)) =
          String.ofList (Text.unescape part) :: readings behind := by
        rw [readings, readings, hparts, Text.quoteParts_quote hpart, Text.texts_cons, List.map_cons]
      have hclosed : Text.Closed behind → Text.Closed ('"' :: (part ++ '"' :: behind)) := by
        rw [Text.closed_quote, Text.closed_append hpart, Text.closed_quote, not_not]
        exact id
      have hclose := hpart.findClose '"' '"' (by simp) (by simp) 0 ('"' :: behind)
      rw [Text.findClose_closing (by decide), Option.map_some, Nat.add_comm] at hclose
      rw [text_terminated d hclose, hdrop, hread]
      cases d.verb with
      | none =>
        refine ⟨[], (List.append_nil _).symm, List.sublist_cons_self _ _, fun hfailed => ?_⟩
        exact absurd ⟨_, List.mem_append_right _ List.mem_cons_self, rfl⟩ hfailed
      | some v =>
        exact ⟨[String.ofList (Text.unescape part)], texts_addBlock d v _, List.Sublist.refl _,
          fun _ => ⟨rfl, hclosed⟩⟩
  · have htail := tail_behind_step d hc hquote rest h
    refine ⟨[], ?_⟩
    rw [texts_step d hquote, readings, readings, Text.texts_of_tail htail]
    exact ⟨(List.append_nil _).symm, List.Sublist.refl _, fun _ => ⟨rfl, .of_tail htail⟩⟩

/-! ### Whole bodies -/

variable {page : Page} {body : String} {origin : Span}

/-- Reading on adds the quoted texts of what is left of a body, or at least some of them. -/
theorem texts_run {d : Draft} {cs : List Char}
    (h : Reached { page, origin } body.toList d cs) (horderly : d.orderly cs = true) :
    ∃ shown, (d.run cs).page.texts = d.page.texts ++ shown ∧ shown.Sublist (readings cs) ∧
      (¬ (d.run cs).Failed → ¬ d.Failed ∧ shown = readings cs ∧ Text.Closed cs) := by
  induction d, cs using Draft.run.induct with
  | case1 d =>
    rw [Draft.run]
    exact ⟨[], (List.append_nil _).symm, List.Sublist.refl _, fun hclean => ⟨hclean, rfl, rfl⟩⟩
  | case2 d c rest d' n hstep ih =>
    rw [orderly, hstep] at horderly
    simp only [Bool.and_eq_true, Bool.or_eq_true, bne_iff_ne, Bool.not_eq_true',
      List.contains_eq_mem, decide_eq_false_iff_not] at horderly
    obtain ⟨⟨hc, hbracket⟩, hlater⟩ := horderly
    have hfails (hd : d.Failed) := hd.step c rest
    have hnext := h.step
    obtain ⟨first, htexts, hsub, hall⟩ := texts_step_shown d hc rest (by
      rw [hstep]
      exact fun heq => hbracket.resolve_left fun hne => hne heq)
    rw [hstep] at hfails hnext htexts hsub hall
    obtain ⟨shown, hrun, hrunsub, hrunall⟩ := ih hnext hlater
    rw [Draft.run, hstep]
    refine ⟨first ++ shown, ?_, (hrunsub.append_left first).trans hsub, fun hclean => ?_⟩
    · rw [hrun, htexts, List.append_assoc]
    · obtain ⟨hstill, rfl, hclosed⟩ := hrunall hclean
      obtain ⟨heq, hcloses⟩ := hall hstill
      exact ⟨fun hd => hstill (hfails hd), heq, hcloses hclosed⟩

end Draft

/-- **The texts of a page are the quoted texts of its body.** They stand on the page in their order,
each read up to the next quote. If no error is reported, none is missing, and all of them end. -/
theorem Page.texts_ofBody {page : Page} {body : String} {origin : Span}
    (h : Draft.orderly { page, origin } body.toList = true) :
    ∃ shown, (page.ofBody body origin).1.texts = page.texts ++ shown ∧
      shown.Sublist (Draft.readings body.toList) ∧
      ((∀ x ∈ (page.ofBody body origin).2, x.isError = false) →
        shown = Draft.readings body.toList ∧ Text.Closed body.toList) := by
  obtain ⟨shown, hrun, hsub, hall⟩ := Draft.texts_run .start h
  have hfinish := Draft.Settles.finish (Draft.run { page, origin } body.toList)
  refine ⟨shown, hfinish.texts.trans hrun, hsub, fun hclean => (hall fun hfailed => ?_).2⟩
  obtain ⟨x, hx, herror⟩ := hfailed.settle hfinish
  rw [hclean x hx] at herror
  cases herror

/-! ### Texts between definitions -/

/-- The search for definitions is outside of quoted texts where all of them have ended. -/
theorem Source.scanEnd_eq_iff (inText : Bool) (depth : Nat) (cs : List Char) :
    (scanEnd inText depth cs).1 = inText ↔ Text.Closed cs := by
  induction cs using Text.escape_induction generalizing inText depth with
  | nil => exact iff_of_true rfl rfl
  | lone => exact iff_of_true (by cases inText <;> rfl) rfl
  | escape c cs ih =>
    rw [scanEnd, ih]
    exact (Text.closed_append (.escape c .nil)).symm
  | char c cs hc ih =>
    rw [scanEnd_char hc]
    by_cases hquote : c = '"'
    · subst hquote
      have hstep : (scanStep inText depth '"').1 = !inText := by cases inText <;> rfl
      have hopens := ih (!inText) (scanStep inText depth '"').2
      rw [hstep, Text.closed_quote, ← hopens, Bool.eq_not, ne_eq, not_not]
    · have hstep : (scanStep inText depth c).1 = inText := by
        rw [scanStep]
        cases inText with
        | true => exact bne_iff_ne.mpr hquote
        | false =>
          rw [if_neg Bool.false_ne_true, if_neg hquote]
          split
          · rfl
          · split <;> rfl
      rw [hstep, ih]
      exact (Text.closed_append (.char hc hquote .nil)).symm

/-- The quoted texts are what the search for definitions takes for them: behind a quote that it
meets outside of texts, up to the next one. -/
theorem Source.mem_texts_iff {cs text : List Char} : text ∈ texts (quoteParts cs) ↔
    ∃ front behind, cs = front ++ '"' :: (text ++ '"' :: behind) ∧
      Text.Masked (fun _ => True) front ∧ (scanEnd false 0 front).1 = false ∧
      Text.Masked (· ≠ '"') text := by
  simp only [Source.scanEnd_eq_iff]
  exact Text.mem_texts_iff

/-! ### Cleaned bodies -/

/-- What is shown of some quoted texts that have become one. -/
def shownOf (group : List (List Char)) : String :=
  String.ofList (Text.unescape (Text.joined group))

theorem readings_clean {body : List Char}
    (h : ∀ text ∈ texts (quoteParts body), Text.Balanced text) :
    Draft.readings (Text.clean body) = (Text.textGroups (quoteParts body)).map shownOf := by
  rw [Draft.readings, Text.texts_clean h, List.map_map]
  rfl

/-- **Quoted texts reach the page through cleaning.** The quoted texts of a body are those that the
search for definitions passes over. Let each of them close the markers that it opens, and let what
cleaning leaves of the body be orderly. Then a page that is read of it shows the quoted texts in
their order, with those in one text that have only white space between them, and none is missing if
no error is reported. A run of spaces that stands in a quoted text, outside of all its markers,
stands in what is shown of it as it was written, between what is shown of the parts in front of it
and behind it. -/
theorem Page.texts_ofBody_clean {page : Page} {body : List Char} {origin : Span}
    (hbalanced : ∀ text ∈ Text.texts (quoteParts body), Text.Balanced text)
    (horderly : Draft.orderly { page, origin } (Text.clean body) = true) :
    (∀ text, text ∈ Text.texts (quoteParts body) ↔
      ∃ front behind, body = front ++ '"' :: (text ++ '"' :: behind) ∧
        Text.Masked (fun _ => True) front ∧ (Source.scanEnd false 0 front).1 = false ∧
        Text.Masked (· ≠ '"') text) ∧
    (Text.textGroups (quoteParts body)).flatten <+: Text.texts (quoteParts body) ∧
    (∃ shown, (page.ofBody (String.ofList (Text.clean body)) origin).1.texts =
        page.texts ++ shown ∧
      shown.Sublist ((Text.textGroups (quoteParts body)).map shownOf) ∧
      ((∀ x ∈ (page.ofBody (String.ofList (Text.clean body)) origin).2, x.isError = false) →
        (Text.textGroups (quoteParts body)).flatten = Text.texts (quoteParts body) ∧
        shown = (Text.textGroups (quoteParts body)).map shownOf)) ∧
    ∀ group ∈ Text.textGroups (quoteParts body), ∀ front n behind,
      front ++ (List.replicate n ' ' ++ behind) ∈ group → Text.Masked (· ≠ '"') front →
      Text.Balanced front → Text.endsBlank front = false →
      (∀ c ∈ behind.head?, Text.isSpace c = false) →
      ∃ before after, (shownOf group).toList = before ++ (Text.unescape (Text.kept front) ++
        (List.replicate n ' ' ++ (Text.unescape (Text.kept behind) ++ after))) := by
  have hgroups := Text.flatten_textGroups (quoteParts body)
  refine ⟨fun _ => Source.mem_texts_iff, hgroups.1, ?_,
    fun group hgroup front n behind hmem hfront hplace hshown hbehind => ?_⟩
  · rw [← String.toList_ofList (l := Text.clean body)] at horderly
    obtain ⟨shown, heq, hsub, hall⟩ := Page.texts_ofBody horderly
    rw [String.toList_ofList, readings_clean hbalanced] at hsub hall
    refine ⟨shown, heq, hsub, fun hclean => ?_⟩
    obtain ⟨hshown, hclosed⟩ := hall hclean
    exact ⟨hgroups.2 ((Text.closed_cleanFrom .script none body).mp hclosed), hshown⟩
  · have hmasked : ∀ text ∈ group, Text.Masked (· ≠ '"') text := fun text htext =>
      Text.masked_of_mem_texts (hgroups.1.subset (List.mem_flatten.mpr ⟨group, hgroup, htext⟩))
    rw [shownOf, String.toList_ofList]
    exact Text.unescape_joined_spaces hmasked hmem hfront hplace hshown hbehind

/-- A body with two texts that become one, and a text with a marker in it. -/
def gateBody : List Char :=
  "[:go]?key\x7b\"It creaks.  \"\n  \"Wind   comes <in\n in>.\"\x7d\x7b \"No  key\\\"s here.\"\x7d"
    |>.toList

/-- The runs of spaces in front of a seam, in a text that was joined to another one, and behind a
condition stay; the line break in the marker does not. -/
theorem Page.texts_ofBody_clean_gate :
    Text.textGroups (quoteParts gateBody) = [["It creaks.  ".toList,
      "Wind   comes <in\n in>.".toList], ["No  key\\\"s here.".toList]] ∧
    (Page.ofBody { name := "gate" } (String.ofList (Text.clean gateBody)) ⟨0, 0⟩).1.texts =
      ["It creaks.  \nWind   comes <in in>.", "No  key\"s here."] ∧
    ∃ before after, "It creaks.  \nWind   comes <in in>.".toList = before ++ ("Wind".toList ++
      (List.replicate 3 ' ' ++ ("comes <in in>.".toList ++ after))) := by
  have hgroups : Text.textGroups (quoteParts gateBody) = [["It creaks.  ".toList,
      "Wind   comes <in\n in>.".toList], ["No  key\\\"s here.".toList]] := by
    decide +kernel
  obtain ⟨-, -, ⟨shown, htexts, -, hall⟩, hspaces⟩ :=
    @Page.texts_ofBody_clean { name := "gate" } gateBody ⟨0, 0⟩ (by decide +kernel)
      (by decide +kernel)
  rw [hgroups] at hall hspaces
  rw [(hall (by decide +kernel)).2] at htexts
  refine ⟨hgroups, htexts.trans (by decide +kernel), ?_⟩
  obtain ⟨before, after, heq⟩ := hspaces _ List.mem_cons_self "Wind".toList 3
    "comes <in\n in>.".toList (by decide +kernel)
    (.char (by decide) (by decide) (.char (by decide) (by decide) (.char (by decide) (by decide)
      (.char (by decide) (by decide) .nil)))) (by decide +kernel) (by decide +kernel)
    (by rintro c ⟨⟩; decide)
  have hfront : Text.unescape (Text.kept "Wind".toList) = "Wind".toList := by decide +kernel
  have hbehind : Text.unescape (Text.kept "comes <in\n in>.".toList) = "comes <in in>.".toList := by
    decide +kernel
  have hshown : shownOf ["It creaks.  ".toList, "Wind   comes <in\n in>.".toList] =
      "It creaks.  \nWind   comes <in in>." := by
    decide +kernel
  rw [hshown, hfront, hbehind] at heq
  exact ⟨before, after, heq⟩

/-- A text with a marker that is not closed goes on behind its quote for cleaning, but not for a
reader of quotes. So the next text is cleaned like a script, and loses spaces. -/
theorem Page.texts_ofBody_unclosed :
    let body := "[:go]\"a <b\"!x=y\"c   d\"".toList
    Text.textGroups (quoteParts body) = [["a <b".toList], ["c   d".toList]] ∧
    (Page.ofBody { name := "page" } (String.ofList body) ⟨0, 0⟩).1.texts = ["a <b", "c   d"] ∧
    Draft.orderly { page := { name := "page" }, origin := ⟨0, 0⟩ } (Text.clean body) = true ∧
    (Page.ofBody { name := "page" } (String.ofList (Text.clean body)) ⟨0, 0⟩).2 = [] ∧
    (Page.ofBody { name := "page" } (String.ofList (Text.clean body)) ⟨0, 0⟩).1.texts =
      ["a <b", "c d"] := by
  decide +kernel

end Gamebook
