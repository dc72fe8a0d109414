import Gamebook.Proofs.Pattern.Bodies
import Gamebook.Proofs.Pattern.Cleaning
import Gamebook.Proofs.Story.Naming

/-!
# Pages made of patterns

A pattern is expanded before anything of it is read, so a noun might change what is read: a sign in
it would be taken for a sign of the script. A plain noun changes nothing but names. The page that a
definition makes of a pattern for such a noun is, block for block, the page of the pattern for a
noun of one character, with the noun put in for this character, and of every script on it the same
chain is read, up to the names (`Story.page?_define_pattern`). So in particular the names that are
just the placeholder in the template are the noun.

Two things may still go wrong, and are excluded: a backslash in front of the placeholder escapes the
first character of the noun, and a noun that begins with a numeral is an integer behind a sign `#`.
-/

namespace Gamebook

open Text Script

namespace Filling

variable {F : Filling}

/-- A noun may be put in by way of the hole. -/
theorem fill_replaceText {cs : List Char} (h : F.hole ∉ cs) (old : List Char) :
    F.fill (replaceText old [F.hole] cs) = replaceText old F.noun cs := by
  induction hn : cs.length using Nat.strongRecOn generalizing cs with
  | ind n ih =>
    subst hn
    cases cs with
    | nil =>
      rw [replaceText, replaceText]
      rfl
    | cons c rest =>
      rw [List.mem_cons, not_or] at h
      rw [replaceText, replaceText]
      split
      · have hbehind : F.hole ∉ rest.drop (old.length - 1) := fun hmem =>
          h.2 (List.mem_of_mem_drop hmem)
        have hshorter : (rest.drop (old.length - 1)).length < (c :: rest).length := by
          rw [List.length_drop, List.length_cons]
          omega
        rw [List.singleton_append, fill_hole, ih _ hshorter hbehind rfl]
      · rw [fill_char (Ne.symm h.1), ih _ (Nat.lt_succ_self _) h.2 rfl]

/-- The text of a pattern for a noun is its text for the hole, with the noun in the hole. -/
theorem fill_expand {p : Pattern} (hp : F.hole ∉ p.template.toList) {noun : String}
    (hnoun : noun.toList = F.noun) :
    F.fill (p.expand (String.singleton F.hole)).toList = (p.expand noun).toList := by
  rw [Pattern.expand, Pattern.expand]
  split
  · exact fill_of_notMem hp
  · rw [String.toList_ofList, String.toList_ofList, String.toList_singleton, fill_replaceText hp,
      hnoun]

end Filling

/-- The page that is made of a pattern for a noun, with a body behind it. -/
def Pattern.page (p : Pattern) (noun : String) (defaults : Value) (body : List Char)
    (origin : Span) : Page :=
  (Page.ofBody ⟨noun, defaults, "", [], []⟩
    (String.ofList (clean ((p.expand noun).toList ++ body))) origin).1

namespace Filling

variable {F : Filling} {p : Pattern} {noun : String} {body : List Char}

/-- Two pages are made of the same body, but for the noun. -/
theorem fillsPage_ofBody {cs : List Char} (h : F.Bare cs) (name name' : String)
    (defaults defaults' : Value) (origin origin' : Span) :
    F.FillsPage (Page.ofBody ⟨name, defaults, "", [], []⟩ (String.ofList cs) origin).1
      (Page.ofBody ⟨name', defaults', "", [], []⟩ (String.ofList (F.fill cs)) origin').1 := by
  have hstart : F.Fills { page := ⟨name, defaults, "", [], []⟩, origin }
      { page := ⟨name', defaults', "", [], []⟩, origin := origin' } :=
    ⟨⟨rfl, ⟨[], rfl, rfl⟩, by simp⟩, rfl, rfl, rfl, by simp⟩
  have hfills := fills_finish (fills_run hstart h)
  rw [Page.ofBody, Page.ofBody, String.toList_ofList, String.toList_ofList]
  exact ⟨hfills.page.blocks, hfills.page.verbs, hfills.page.fits⟩

/-- The pages of a pattern are the same but for the noun. -/
theorem fillsPage_page (hfresh : F.hole ∉ p.template.toList ++ body)
    (hbare : F.Bare (p.expand (String.singleton F.hole)).toList) (hnoun : noun.toList = F.noun)
    (defaults defaults' : Value) (origin origin' : Span) :
    F.FillsPage (p.page (String.singleton F.hole) defaults body origin)
      (p.page noun defaults' body origin') := by
  rw [List.mem_append, not_or] at hfresh
  have htext : (p.expand noun).toList ++ body =
      F.fill ((p.expand (String.singleton F.hole)).toList ++ body) := by
    rw [fill_append, fill_expand hfresh.1 hnoun, fill_of_notMem hfresh.2]
  have hall := hbare.append hfresh.2
  rw [Pattern.page, Pattern.page, htext, clean_fill hall]
  exact fillsPage_ofBody hall.clean _ _ _ _ _ _

/-- Of a script on such a page the same chain is read as of the one on the other page. -/
theorem FillsPage.ofText_chain {p p' : Page} (h : F.FillsPage p p') {i : Nat} {b : Block}
    (hb : p.block? i = some b) (hkind : b.kind = .script)
    (hcounted : ¬ F.Counted b.expression.toList) :
    ∃ b', p'.block? i = some b' ∧ b'.kind = .script ∧
      (Chain.ofText b'.expression).1 = (Chain.ofText b.expression).1.rename F.name := by
  have hfits : F.Fits b.expression.toList :=
    ⟨h.fits b (List.mem_of_getElem? hb) hkind, hcounted⟩
  refine ⟨F.block b, ?_, hkind, Filling.ofText_chain hfits⟩
  rw [Page.block?] at hb
  rw [Page.block?, h.blocks, List.getElem?_map, hb]
  rfl

end Filling

namespace Story

/-- The page that a definition with a known pattern adds. -/
theorem page?_define_expand {s : Story} {definition header body : List Char} {h : Header}
    {name : String} {p : Pattern}
    (hinside : Marker.bracket.inside? (trimStart definition) = some (header, body))
    (hheader : Header.ofText header = .ok h) (hpattern : h.pattern = some name)
    (hname : name ≠ h.noun) (hp : s.patterns.get? name = some p) (hnew : s.page? h.noun = none)
    (origin : Span) : (s.define definition origin).story.page? h.noun =
      some (p.page h.noun (defaultValue h origin).1 body origin) := by
  have hother : h.pattern ≠ some h.noun := by
    rw [hpattern]
    exact fun heq => hname (Option.some.inj heq)
  have hpages : s.pages.find? (fun q => q.name == h.noun) = none := hnew
  have hfirst : (p.page h.noun (defaultValue h origin).1 body origin).name = h.noun :=
    Page.name_ofBody _ _ _
  rw [define, hinside]
  dsimp only
  rw [hheader]
  dsimp only
  rw [if_neg hother, hnew, if_neg (by simp), definePage, pageText, hpattern]
  dsimp only
  rw [hp]
  dsimp only
  rw [page?, List.find?_append, hpages, List.find?_singleton, Option.none_or]
  exact if_pos (beq_iff_eq.mpr hfirst)

/-- **A pattern puts in names, not syntax.** The page that a definition `[N[pattern]]` makes is,
block for block, the page of the pattern for the hole, with the noun `N` in the hole of every text
and of every script. Of each script the same chain is read, with `N` in the hole of every name: a
name that is just the hole has become `N`, and a name without the hole stays. Only where a numeral
would be read behind a sign `#` nothing is said of the chain. -/
theorem page?_define_pattern {s : Story} {definition header body : List Char} {h : Header}
    {name : String} {p : Pattern} (F : Filling)
    (hinside : Marker.bracket.inside? (trimStart definition) = some (header, body))
    (hheader : Header.ofText header = .ok h) (hpattern : h.pattern = some name)
    (hname : name ≠ h.noun) (hp : s.patterns.get? name = some p) (hnew : s.page? h.noun = none)
    -- the noun is plain, and the hole is a character that occurs nowhere else
    (hnoun : h.noun.toList = F.noun) (hfresh : F.hole ∉ p.template.toList ++ body)
    -- the placeholder is not escaped
    (hbare : F.Bare (p.expand (String.singleton F.hole)).toList) (origin : Span) :
    ∃ page, (s.define definition origin).story.page? h.noun = some page ∧
      F.FillsPage (p.page (String.singleton F.hole) .empty body origin) page ∧
      (∀ i b, (p.page (String.singleton F.hole) .empty body origin).block? i = some b →
        b.kind = .script → ¬ F.Counted b.expression.toList →
        ∃ b', page.block? i = some b' ∧ b'.kind = .script ∧
          (Chain.ofText b'.expression).1 = (Chain.ofText b.expression).1.rename F.name) ∧
      F.name (String.singleton F.hole) = h.noun ∧
      ∀ text, F.hole ∉ text.toList → F.name text = text := by
  have hfills := Filling.fillsPage_page hfresh hbare hnoun .empty (defaultValue h origin).1 origin
    origin
  refine ⟨_, page?_define_expand hinside hheader hpattern hname hp hnew origin, hfills,
    fun i b hb hkind hcounted => hfills.ofText_chain hb hkind hcounted, ?_,
    fun text => Filling.name_of_notMem⟩
  rw [Filling.name_hole, ← hnoun, String.ofList_toList]

/-- The noun `oil lamp`, to be put in for an underscore. -/
def lampFilling : Filling :=
  ⟨'_', "oil lamp".toList, by decide, by decide,
    .char (by decide) (.char (by decide) (.space (by decide) (.char (by decide)
      (.char (by decide) (.char (by decide) (.last (by decide)))))))⟩

/-- A pattern that names its noun in every way. -/
def lampPattern : Pattern :=
  ⟨"lamp", "lamp", "[:light]?@lamp=lit|lamp:check!lamp=#lamp+1\"The lamp burns.\""⟩

/-- A story with a pattern for lamps. -/
def lampStory : Story :=
  (load s!"[lamp[lamp]]{lampPattern.template}").story

/-- The instruction of the oil lamp is that of the pattern, with the oil lamp in it. -/
theorem page?_define_pattern_lamp : ∃ page,
    (lampStory.define "[oil lamp[lamp]]".toList ⟨0, 0⟩).story.page? "oil lamp" = some page ∧
      lampFilling.FillsPage (lampPattern.page (String.singleton '_') .empty [] ⟨0, 0⟩) page ∧
      (∃ b', page.block? 2 = some b' ∧ b'.kind = .script ∧
        (Chain.ofText b'.expression).1 =
          (Chain.ofText "[!_=#_+1]").1.rename lampFilling.name) ∧
      lampFilling.name (String.singleton '_') = "oil lamp" := by
  have hinside : Marker.bracket.inside? (trimStart "[oil lamp[lamp]]".toList) =
      some ("oil lamp[lamp]".toList, []) := by decide +kernel
  have hheader : Header.ofText "oil lamp[lamp]".toList = .ok ⟨"oil lamp", some "lamp", none⟩ := by
    decide +kernel
  have hp : lampStory.patterns.get? "lamp" = some lampPattern := by decide +kernel
  have hbare : lampFilling.Bare
      (lampPattern.expand (String.singleton lampFilling.hole)).toList := by
    rw [Filling.Bare]
    decide +kernel
  have hblock : (lampPattern.page (String.singleton lampFilling.hole) .empty [] ⟨0, 0⟩).block? 2 =
      some (.script "[!_=#_+1]") := by decide +kernel
  have hcounted : ¬ lampFilling.Counted "[!_=#_+1]".toList :=
    Filling.Unnumbered.not_counted (by rw [Filling.Unnumbered]; decide +kernel) _
  obtain ⟨page, hpage, hfills, hchains, hname, -⟩ := page?_define_pattern lampFilling hinside
    hheader rfl (by decide) hp (by decide +kernel) rfl (by decide +kernel) hbare ⟨0, 0⟩
  exact ⟨page, hpage, hfills, hchains 2 _ hblock rfl hcounted, hname⟩

/-- A story with a pattern for doors, of which three pages are made. -/
def doorStory : String :=
  "[door[door]][:open]?door=oak|#door>#1\"Open.\"[cot[door]=oak][day\\-bed[door]=oak][7[door]=oak]"

/-- A noun with a minus sign in it is not put in as a name: the condition of the page `day-bed` asks
for what is in `day` but not in `bed`. Nor is a numeral behind a sign `#`. No names make these
conditions of that of the cot. Nothing of this is reported. -/
theorem noun_read_as_syntax :
    (load doorStory).diagnostics = [] ∧
    (load doorStory).story.pages.map (fun p => (p.name, p.blocks.map (·.expression))) =
      [("cot", ["", "[?cot=oak]|[?#cot>#1]", "Open."]),
        ("day-bed", ["", "[?day-bed=oak]|[?#day-bed>#1]", "Open."]),
        ("7", ["", "[?7=oak]|[?#7>#1]", "Open."])] ∧
    (Chain.ofText "[?day-bed=oak]|[?#day-bed>#1]").1.first = .condition (.compare
      (some (.binary (.ofPrimary (.atom "day")) .difference (.item (.primary (.atom "bed")))))
      .contains (some (.ofPrimary (.atom "oak")))) ∧
    (∀ g, (Chain.ofText "[?day-bed=oak]|[?#day-bed>#1]").1 ≠
      (Chain.ofText "[?cot=oak]|[?#cot>#1]").1.rename g) ∧
    ∀ g, (Chain.ofText "[?7=oak]|[?#7>#1]").1 ≠
      (Chain.ofText "[?cot=oak]|[?#cot>#1]").1.rename g := by
  have hcot : (Chain.ofText "[?cot=oak]|[?#cot>#1]").1 =
      ⟨.condition (.compare (some (.ofPrimary (.atom "cot"))) .contains
          (some (.ofPrimary (.atom "oak")))),
        [(.or, .condition (.compare (some (.ofPrimary (.integerOf "cot"))) .more
          (some (.ofPrimary (.integer 1)))))]⟩ := by decide +kernel
  have hbed : (Chain.ofText "[?day-bed=oak]|[?#day-bed>#1]").1.first = .condition (.compare
      (some (.binary (.ofPrimary (.atom "day")) .difference (.item (.primary (.atom "bed")))))
      .contains (some (.ofPrimary (.atom "oak")))) := by decide +kernel
  have hseven : (Chain.ofText "[?7=oak]|[?#7>#1]").1.rest =
      [(.or, .condition (.compare (some (.ofPrimary (.integer 7))) .more
        (some (.ofPrimary (.integer 1)))))] := by decide +kernel
  refine ⟨by decide +kernel, by decide +kernel, hbed, fun g heq => ?_, fun g heq => ?_⟩
  · have hfirst := congrArg Chain.first heq
    rw [hbed, hcot] at hfirst
    cases hfirst
  · have hrest := congrArg Chain.rest heq
    rw [hseven, hcot] at hrest
    cases hrest

end Story

end Gamebook
