import Gamebook.Proofs.Page.Declared
import Gamebook.Proofs.Script.References
import Gamebook.Story.Source

/-!
# Nouns in headers and in scripts

A name in the header of a definition gives its noun a page (`Story.page?_load`), whatever stands in
front of the definition or behind it. In a script the same name is a reference. That the reference
finds the page is sure if the name is even, and only then: otherwise the page has another name
(`Script.NounText.reference_resolves`).
-/

namespace Gamebook

open Text

/-! ### Headers -/

namespace Script

/-- A name hides all characters that end it, or open something in it. -/
theorem NounText.masked_text (w : NounText) : Masked (· ∉ reserved) w.text := by
  have hstroke (s : Stroke) : Masked (· ∉ reserved) s.text := by
    cases s with
    | plain c h =>
      obtain ⟨-, hc, -, hreserved, -⟩ := isPlain_cases h
      exact .char hc hreserved .nil
    | escape c h => exact .escape c .nil
  have hgap (g : Spaced) : Masked (· ∉ reserved) g.gap := by
    have hspace : reserved.any isSpace = false := by decide
    refine Masked.of_forall fun c hc => ?_
    have hmem : c ∉ reserved := fun hmem => List.any_eq_false.mp hspace c hmem (g.blank c hc)
    exact ⟨fun heq => hmem (heq ▸ by decide), hmem⟩
  have hrest (rest : List Spaced) : Masked (· ∉ reserved) (spacedText rest) := by
    induction rest with
    | nil => exact .nil
    | cons g rest ih => exact ((hgap g).append (hstroke g.stroke)).append ih
  exact (hstroke w.first).append (hrest w.rest)

/-- A header always gives some noun. -/
theorem NounText.noun_ne_empty (w : NounText) : w.noun ≠ "" := by
  intro hnil
  have hvalues : headerValues w.first w.rest = [] := by
    rw [← w.toList_noun, hnil]
    rfl
  cases hrest : w.rest with
  | nil =>
    rw [hrest, headerValues] at hvalues
    split at hvalues <;> cases hvalues
  | cons g rest =>
    rw [hrest, headerValues] at hvalues
    cases hvalues

end Script

namespace Story

open Script

/-- A name by itself is a header without pattern and value. -/
theorem Header.ofText_text (w : NounText) : Header.ofText w.text = .ok ⟨w.noun, none, none⟩ := by
  have hhit : ∀ c, c ∉ reserved → ∀ rest, startsWithOneOf ['[', '='] (c :: rest) = false := by
    intro c hc rest
    have hopen : c ≠ '[' := fun heq => hc (heq ▸ by decide)
    have hassign : c ≠ '=' := fun heq => hc (heq ▸ by decide)
    simp [startsWithOneOf, Units.ofChar, hopen, hassign]
  have hfind : find (startsWithOneOf ['[', '=']) w.text = none := by
    have hpass := w.masked_text.find hhit []
    rwa [List.append_nil, find_nil] at hpass
  have hnoun : w.noun.isEmpty = false := by simpa using w.noun_ne_empty
  rw [NounText.noun] at hnoun
  rw [Header.ofText, hfind]
  dsimp only
  rw [Option.getD_none, List.take_length, List.drop_length, hnoun]
  rfl

/-- The header of a definition with a name by itself. -/
theorem inside?_text (w : NounText) (body : List Char) :
    Marker.bracket.inside? ('[' :: (w.text ++ ']' :: body)) = some (w.text, body) := by
  have hclose := w.masked_text.findClose '[' ']' (by decide) (by decide) 0 (']' :: body)
  rw [findClose_closing (by decide), Option.map_some, Nat.add_comm] at hclose
  have hinner : ('[' :: (w.text ++ ']' :: body)).take (w.text.length + 1) = '[' :: w.text := by
    rw [List.take_succ_cons, List.take_left]
  have hbehind : ('[' :: (w.text ++ ']' :: body)).drop (w.text.length + 1 + 1) = body := by
    rw [List.drop_succ_cons, ← List.drop_drop, List.drop_left]
    rfl
  rw [Marker.inside?, Marker.bracket, Marker.lengthAt?_paired, hclose, Option.map_some,
    Option.map_some, Nat.add_sub_cancel, hinner, hbehind]
  rfl

/-! ### Definitions -/

variable {s : Story} {noun : String}

/-- The page of a noun is named after it. -/
theorem name_of_page? {p : Page} (h : s.page? noun = some p) : p.name = noun :=
  eq_of_beq (List.find?_some (p := fun q : Page => q.name == noun) h)

/-- A definition takes no page away. -/
theorem pages_define (s : Story) (definition : List Char) (origin : Span) :
    ∃ more, (s.define definition origin).story.pages = s.pages ++ more := by
  rw [define]
  split
  · exact ⟨[], (List.append_nil _).symm⟩
  · split
    · exact ⟨[], (List.append_nil _).symm⟩
    · split
      · refine ⟨[], ?_⟩
        rw [List.append_nil, definePattern, addPattern]
        split
        next heq =>
          split at heq
          · cases heq
          · cases heq
            rfl
        next => rfl
      · split
        · exact ⟨[], (List.append_nil _).symm⟩
        · exact ⟨_, rfl⟩

/-- A noun that has a page keeps it. -/
theorem page?_define {p : Page} (h : s.page? noun = some p) (definition : List Char)
    (origin : Span) : (s.define definition origin).story.page? noun = some p := by
  obtain ⟨more, hmore⟩ := pages_define s definition origin
  rw [page?] at h
  rw [page?, hmore, List.find?_append, h]
  rfl

/-- A definition gives its noun a page, unless it has one. -/
theorem page?_define_text (s : Story) (w : NounText) (body : List Char) (origin : Span) :
    ∃ p, (s.define ('[' :: (w.text ++ ']' :: body)) origin).story.page? w.noun = some p := by
  have htrim : trimStart ('[' :: (w.text ++ ']' :: body)) = '[' :: (w.text ++ ']' :: body) :=
    List.dropWhile_cons_of_neg (by decide)
  rw [define, htrim, inside?_text]
  dsimp only
  rw [Header.ofText_text]
  dsimp only
  rw [if_neg (by simp)]
  split
  next hthere => exact Option.isSome_iff_exists.mp hthere
  next hnew =>
    have hnone : s.pages.find? (fun p => p.name == w.noun) = none := by
      simpa [page?] using hnew
    rw [definePage, page?]
    dsimp only
    rw [List.find?_append, hnone, List.find?_singleton, Page.name_ofBody]
    simp

end Story

/-! ### Sources -/

/-- The definitions of a source, as they are read. -/
def Source.definitions (source : String) : List (List Char) :=
  let cs := blankRemarks source.toList
  (extents cs.length (definitionStarts 0 false 0 cs)).map fun (start, stop) =>
    (cs.take stop).drop start

namespace Story

open Script

/-- Where a name is the header of a definition, its noun has a page. -/
theorem page?_load {source : String} {w : NounText} {body : List Char}
    (h : '[' :: (w.text ++ ']' :: body) ∈ Source.definitions source) :
    ∃ p, (load source).story.page? w.noun = some p ∧ p.name = w.noun := by
  obtain ⟨extent, hextent, hdefinition⟩ := List.mem_map.mp h
  have hfold : ∀ (cs : List Char) (extents : List (Nat × Nat)) (l : Loaded),
      (∃ p, l.story.page? w.noun = some p) ∨
        (∃ e ∈ extents, (cs.take e.2).drop e.1 = '[' :: (w.text ++ ']' :: body)) →
      ∃ p, (extents.foldl (fun l e => l.add cs e) l).story.page? w.noun = some p := by
    intro cs extents
    induction extents with
    | nil => exact fun l h => h.resolve_right (by simp)
    | cons e extents ih =>
      intro l h
      refine ih (l.add cs e) ?_
      rcases h with ⟨p, hp⟩ | ⟨e', he', heq⟩
      · exact .inl ⟨p, page?_define hp _ _⟩
      · rcases List.mem_cons.mp he' with rfl | he'
        · obtain ⟨p, hp⟩ := page?_define_text l.story w body (Source.headerSpan cs e'.1 e'.2)
          rw [← heq] at hp
          exact .inl ⟨p, hp⟩
        · exact .inr ⟨e', he', heq⟩
  obtain ⟨p, hp⟩ := hfold _ _ ⟨{}, _⟩ (.inr ⟨extent, hextent, hdefinition⟩)
  exact ⟨p, hp, name_of_page? hp⟩

end Story

/-! ### References to nouns -/

namespace Script

/-- **A name stands for one noun in headers and in scripts if it is even, and only then.** Where it
is the header of a definition, a page is named `w.noun`. In a script cleaning leaves it in one form,
and where this stands apart in a condition or an action, it is read as the name `w.reference`, or as
a numeral. The two are the same exactly if the name is even; then the reference finds the page. -/
theorem NounText.reference_resolves (w : NounText) :
    -- in headers
    (∀ source body, '[' :: (w.text ++ ']' :: body) ∈ Source.definitions source →
      ∃ p, (Story.load source).story.page? w.noun = some p ∧ p.name = w.noun) ∧
    -- in scripts
    (∀ last behind, cleanFrom .script last (w.text ++ behind) =
      w.cleaned ++ cleanFrom .script (some w.last.last) behind) ∧
    (∀ front behind c, Apart front w.cleaned behind → w.reference ≠ "" →
      Condition.ofText (front ++ (w.cleaned ++ behind)) = .ok c →
      w.reference ∈ c.names ∨ w.Numeral) ∧
    (∀ body front behind i, (splitBreaks body).1 = front ++ (w.cleaned ++ behind) →
      Apart front w.cleaned behind → w.reference ≠ "" → Instruction.ofText body = .ok i →
      ∃ a, i.action = some a ∧ (w.reference ∈ a.names ∨ w.Numeral)) ∧
    -- both ways
    (w.reference = w.noun ↔ w.Even) ∧
    (w.Even → ∀ source body, '[' :: (w.text ++ ']' :: body) ∈ Source.definitions source →
      ∃ p, (Story.load source).story.lookup w.reference = .ok p ∧ p.name = w.reference) := by
  refine ⟨fun _ _ => Story.page?_load, w.cleanFrom_text,
    fun _ _ _ happart hw => Condition.reference_mem happart hw,
    fun _ _ _ _ hbody happart hw => Instruction.reference_mem hbody happart hw,
    w.reference_eq_noun_iff, fun heven source body hdefinition => ?_⟩
  obtain ⟨p, hp, hname⟩ := Story.page?_load hdefinition
  rw [w.reference_eq_noun_iff.mpr heven]
  exact ⟨p, by rw [Story.lookup, hp], hname⟩

/-- An ordinary character with some white space in front. -/
def Spaced.plain (gap : String) (c : Char) (shown : isPlain c = true)
    (blank : isBlank gap.toList = true) : Spaced :=
  ⟨gap.toList, .plain c shown, List.all_eq_true.mp blank⟩

/-- The name `my ox`. -/
def oxText : NounText :=
  ⟨.plain 'm' (by decide), [.plain "" 'y' (by decide) (by decide),
    .plain " " 'o' (by decide) (by decide), .plain "" 'x' (by decide) (by decide)]⟩

/-- The name of the ox, with two spaces. -/
def wideOxText : NounText :=
  ⟨.plain 'm' (by decide), [.plain "" 'y' (by decide) (by decide),
    .plain "  " 'o' (by decide) (by decide), .plain "" 'x' (by decide) (by decide)]⟩

/-- An ox, and a yard from which it is called. -/
def oxStory (name : String) : String :=
  s!"[{name}][:call]\"Moo.\"[yard][:look]?{name}:call\"It comes.\""

/-- The call of the ox. -/
def oxCall : Condition :=
  .bare (.ofPrimary (.verbCall (some "my ox") "call"))

/-- With one space, the name of the ox in the condition is that of its page. -/
theorem reference_resolves_ox : oxText.Even ∧
    '[' :: (oxText.text ++ ']' :: "[:call]\"Moo.\"".toList) ∈
      Source.definitions (oxStory "my ox") ∧
    Apart [] oxText.cleaned ":call".toList ∧
    Condition.ofText ([] ++ (oxText.cleaned ++ ":call".toList)) = .ok oxCall ∧
    (oxText.reference ∈ oxCall.names ∨ oxText.Numeral) ∧
    ∃ p, (Story.load (oxStory "my ox")).story.lookup oxText.reference = .ok p ∧
      p.name = oxText.reference := by
  have heven : oxText.Even := by decide
  have hdefinition : '[' :: (oxText.text ++ ']' :: "[:call]\"Moo.\"".toList) ∈
      Source.definitions (oxStory "my ox") := by decide +kernel
  have happart : Apart [] oxText.cleaned ":call".toList :=
    ⟨by decide +kernel, by decide +kernel, by rintro c ⟨⟩; decide, by decide +kernel⟩
  have hread : Condition.ofText ([] ++ (oxText.cleaned ++ ":call".toList)) = .ok oxCall := by
    decide +kernel
  obtain ⟨-, -, hcondition, -, -, hresolves⟩ := oxText.reference_resolves
  exact ⟨heven, hdefinition, happart, hread, hcondition _ _ _ happart (by decide +kernel) hread,
    hresolves heven _ _ hdefinition⟩

/-- With two spaces, the page has both in its name and the condition has one: there is no page of
that name. Nothing of this is reported. -/
theorem reference_ne_noun_ox : wideOxText.text = "my  ox".toList ∧
    '[' :: (wideOxText.text ++ ']' :: "[:call]\"Moo.\"".toList) ∈
      Source.definitions (oxStory "my  ox") ∧
    (Story.load (oxStory "my  ox")).diagnostics = [] ∧
    (Story.load (oxStory "my  ox")).story.pages.map (·.name) = ["my  ox", "yard"] ∧
    wideOxText.noun = "my  ox" ∧
    ((Story.load (oxStory "my  ox")).story.page? "yard").map (fun p =>
      p.blocks.map (·.expression)) = some ["", "[?my ox:call]", "It comes."] ∧
    Chain.ofText "[?my ox:call]" = (⟨.condition oxCall, []⟩, []) ∧
    wideOxText.reference = "my ox" ∧ oxCall.names = ["my ox", "call"] ∧
    (Story.load (oxStory "my  ox")).story.page? "my ox" = none := by
  decide +kernel

end Script

end Gamebook
