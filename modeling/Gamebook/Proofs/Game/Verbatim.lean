import Gamebook.Game
import Gamebook.Proofs.Page.Settling
import Gamebook.Proofs.Text.Joining

/-!
# Texts as they are written

Between a source and the player a quoted text is read five times: remarks are blanked out,
definitions are told apart, white space is cleaned, the text is cut out of the body, and its escapes
are resolved. An escaped text is masked for each of the searches (`Text.Masked`), so each of them
finds what stands in front of the text or behind it, and never a part of it. What is cut out in the
end is the escaped text without the escapes of its line feeds, which unescaping takes back to the
text itself. Hence any text reaches the player as it is: `read_verbatim`.

The page that is loaded on the way is `verbatimPage`.
-/

namespace Gamebook

/-! ### Remarks -/

/-- A line without a remark stays. -/
theorem Source.blankRemark_eq {line : List Char}
    (hline : Text.find (Text.Marker.comment.startsAt) line = none) :
    Source.blankRemark line = line := by
  rw [Source.blankRemark, Text.stripComment, Text.cut, hline]
  simp

/-- A text of one line without a remark stays. -/
theorem Source.blankRemarks_eq {cs : List Char} (hfeed : '\n' ∉ cs)
    (hremark : Text.find (Text.Marker.comment.startsAt) cs = none) :
    Source.blankRemarks cs = cs := by
  rw [Source.blankRemarks, Text.split_of_notMem hfeed, List.map_singleton,
    Source.blankRemark_eq hremark]
  simp

/-! ### A story of one text -/

/-- The body of a page whose only verb shows a text. -/
def verbatimBody (shown : List Char) : List Char :=
  ['[', ':', 'g', 'o', ']', '"'] ++ (shown ++ ['"'])

/-- The source of a story with one noun and one verb that shows a text. -/
def verbatimSource (s : String) : String :=
  "[x][:go]\"" ++ String.ofList (Text.escape s.toList) ++ "\""

theorem toList_verbatimSource (s : String) :
    (verbatimSource s).toList = ['[', 'x', ']'] ++ verbatimBody (Text.escape s.toList) := by
  simp [verbatimSource, verbatimBody]

/-- The page that the source makes. -/
def verbatimPage (s : String) : Page where
  name := "x"
  source := String.ofList (verbatimBody (Text.cleaned s.toList))
  verbs := [⟨"go", ["go"], 0⟩]
  blocks := [⟨.script, "", [1]⟩, .text s]

/-- Nothing in the source starts a remark: each slash is escaped. -/
theorem masked_verbatimSource (s : String) :
    Text.Masked (· ≠ '/') (verbatimSource s).toList := by
  rw [toList_verbatimSource, verbatimBody]
  have hbody : Text.Masked (· ≠ '/') (Text.escape s.toList) :=
    (Text.masked_escape s.toList).mono fun c hc => Text.ne_of_isMarked hc (by decide)
  have hfront : Text.Masked (· ≠ '/') ['[', 'x', ']'] := .of_forall (by simp)
  have hverb : Text.Masked (· ≠ '/') ['[', ':', 'g', 'o', ']', '"'] := .of_forall (by simp)
  have hend : Text.Masked (· ≠ '/') ['"'] := .of_forall (by simp)
  exact hfront.append (hverb.append (hbody.append hend))

/-- The source has no remarks. -/
theorem blankRemarks_verbatimSource (s : String) :
    Source.blankRemarks (verbatimSource s).toList = (verbatimSource s).toList := by
  refine Source.blankRemarks_eq ?_ ?_
  · rw [toList_verbatimSource, verbatimBody]
    simp [Text.feed_not_mem_escape]
  · -- a remark starts with two slashes, and none is to be seen
    have hremark : ∀ c, c ≠ '/' → ∀ rest, Text.Marker.comment.startsAt (c :: rest) = false := by
      intro c hc rest
      show ['/', '/'].isPrefixOf (c :: rest) = false
      rw [List.isPrefixOf, beq_false_of_ne hc.symm, Bool.false_and]
    have hfind := (masked_verbatimSource s).find hremark []
    rw [List.append_nil] at hfind
    rw [hfind, Text.find_nil]
    rfl

/-- The source holds one definition, at its start. -/
theorem definitionStarts_verbatimSource (s : String) :
    Source.definitionStarts 0 false 0 (verbatimSource s).toList = [0] := by
  have htext := (Text.masked_escape s.toList).definitionStarts (by decide) 9 0 ['"']
  simp [toList_verbatimSource, verbatimBody, Source.definitionStarts, Source.opensDefinition, htext,
    Text.trimStart, Text.isSpace]

/-! ### The page -/

/-- Cleaning the body resolves the escapes of line feeds, and nothing else. -/
theorem clean_verbatimBody (cs : List Char) :
    Text.clean (verbatimBody (Text.escape cs)) = verbatimBody (Text.cleaned cs) := by
  have hfront : ∀ last rest, Text.cleanFrom .script last (['[', ':', 'g', 'o', ']'] ++ rest) =
      ['[', ':', 'g', 'o', ']'] ++ Text.cleanFrom .script (some ']') rest := fun last rest =>
    Text.cleanFrom_append (by simp [Text.isSpace]) last rest
  have hquote : Text.cleanFrom .script (some ']') ('"' :: (Text.escape cs ++ ['"'])) =
      '"' :: (Text.cleaned cs ++ ['"']) := by
    rw [Text.cleanFrom_char (by decide) (by decide) (by simp)]
    exact congrArg _ (Text.cleanFrom_escape cs _)
  exact (hfront none _).trans (congrArg _ hquote)

/-- The page of the noun before its body is read. -/
def verbatimDraft (origin : Span) : Draft where
  page := { name := "x" }
  origin

/-- The declaration of the verb opens it, and nothing stands in its way. -/
theorem step_declaration (origin : Span) (more : List Char) :
    (verbatimDraft origin).step '[' (':' :: 'g' :: 'o' :: ']' :: '"' :: more) =
      ({ verbatimDraft origin with
          page := { name := "x", blocks := [.script ""] }
          verb := some ⟨["go"], 0, []⟩ }, 4) := by
  have hclose : Text.findClose '[' ']' 0 (':' :: 'g' :: 'o' :: ']' :: '"' :: more) = some 4 := by
    have hfront : Text.Masked (fun c => c ≠ '[' ∧ c ≠ ']') [':', 'g', 'o'] := .of_forall (by simp)
    have hfind := hfront.findClose '[' ']' (by simp) (by simp) 0 (']' :: '"' :: more)
    rwa [Text.findClose_closing (by decide)] at hfind
  have hnames : (verbatimDraft origin).declarations []
      ('[' :: ':' :: 'g' :: 'o' :: ']' :: '"' :: more) =
        (verbatimDraft origin, some (["go"], '"' :: more)) := by
    rw [Draft.declarations, hclose]
    exact Draft.declarations_eq (by simp)
  have hlength : ('[' :: ':' :: 'g' :: 'o' :: ']' :: '"' :: more).length -
      ('"' :: more).length - 1 = 4 := by
    simp only [List.length_cons]
    omega
  have hstep : ∀ rest, (verbatimDraft origin).step '[' rest =
      (verbatimDraft origin).verbDeclaration ('[' :: rest) := fun _ => rfl
  have hdeclares : Draft.declaresVerb ('[' :: ':' :: 'g' :: 'o' :: ']' :: '"' :: more) = true := rfl
  rw [hstep, Draft.verbDeclaration, if_pos hdeclares, hnames]
  dsimp only
  rw [hlength]
  rfl

/-- A quoted text goes into the verb that is open. -/
theorem step_text (s : String) {d : Draft} {v : OpenVerb} (hv : d.verb = some v) :
    d.step '"' (Text.cleaned s.toList ++ ['"']) =
      ((d.addBlock v (.text s)).1, (Text.cleaned s.toList).length + 1) := by
  have hlength : Text.Marker.textBlock.lengthAt? ('"' :: (Text.cleaned s.toList ++ ['"'])) =
      some ((Text.cleaned s.toList).length + 2) := by
    have hfind := (Text.masked_cleaned s.toList).findClose '"' '"' (by simp) (by simp) 0 ['"']
    rw [Text.findClose_closing (by decide)] at hfind
    rw [Text.Marker.textBlock, Text.Marker.lengthAt?_paired, hfind]
    exact congrArg some (by simp only [Nat.add_comm 1])
  have hstep : ∀ rest, d.step '"' rest = d.text ('"' :: rest) := fun _ => rfl
  have hcontent : ((('"' :: (Text.cleaned s.toList ++ ['"'])).take
      ((Text.cleaned s.toList).length + 2 - 1)).drop 1) = Text.cleaned s.toList := by
    simp
  rw [hstep, Draft.text, hlength]
  dsimp only
  rw [hv, hcontent, Text.unescape_cleaned, String.ofList_toList]
  rfl

/-- The statements of a body that shows a text: a verb, and the text. -/
theorem ofBody_verbatimBody (s : String) (origin : Span) :
    Page.ofBody { name := "x" } (String.ofList (verbatimBody (Text.cleaned s.toList))) origin =
      (verbatimPage s, []) := by
  have hrun : Draft.run (verbatimDraft origin) (verbatimBody (Text.cleaned s.toList)) =
      { verbatimDraft origin with
          page := { name := "x", blocks := [⟨.script, "", [1]⟩, .text s] }
          verb := some ⟨["go"], 0, []⟩ } := by
    simp only [verbatimBody, List.cons_append, List.nil_append]
    -- two statements: the declaration of the verb, and its text, behind which nothing is left
    rw [Draft.run, step_declaration]
    simp only [List.drop_succ_cons, List.drop_zero]
    rw [Draft.run, step_text s rfl]
    dsimp only
    rw [List.drop_eq_nil_of_le (by simp), Draft.run]
    rfl
  rw [Page.ofBody, String.toList_ofList, show Draft.run { page := { name := "x" }, origin } _ = _
    from hrun]
  rfl

/-! ### Loading -/

/-- The header gives the name of the noun, and nothing else. -/
theorem ofText_verbatimHeader : Story.Header.ofText ['x'] = .ok ⟨"x", none, none⟩ := by
  have hfind : Text.find (Text.startsWithOneOf ['[', '=']) ['x'] = none := by
    rw [Text.find_char (by decide), Text.find_nil]
    rfl
  rw [Story.Header.ofText, hfind]
  rfl

/-- The definition gives the page, and no report. -/
theorem define_verbatimSource (s : String) (origin : Span) :
    ({} : Story).define (verbatimSource s).toList origin =
      ⟨{ pages := [verbatimPage s] }, [], true⟩ := by
  have hinside : Text.Marker.bracket.inside? (Text.trimStart (verbatimSource s).toList) =
      some (['x'], verbatimBody (Text.escape s.toList)) := by
    have hfind : ∀ rest, Text.findClose '[' ']' 0 ('x' :: ']' :: rest) = some 2 := by
      intro rest
      rw [Text.findClose_char (by decide) (by decide) (by decide),
        Text.findClose_closing (by decide)]
      rfl
    have htrim : Text.trimStart (verbatimSource s).toList =
        '[' :: 'x' :: ']' :: verbatimBody (Text.escape s.toList) := by
      rw [toList_verbatimSource]
      rfl
    rw [htrim, Text.Marker.inside?, Text.Marker.bracket, Text.Marker.lengthAt?_paired, hfind]
    rfl
  rw [Story.define, hinside]
  dsimp only
  rw [ofText_verbatimHeader]
  dsimp only
  rw [if_neg (by simp), if_neg (by simp [Story.page?])]
  simp only [Story.definePage, Story.pageText, Story.defaultValue, clean_verbatimBody]
  rw [ofBody_verbatimBody]
  rfl

/-- The source is loaded without a report. -/
theorem load_verbatimSource (s : String) :
    Story.load (verbatimSource s) = ⟨{ pages := [verbatimPage s] }, []⟩ := by
  rw [Story.load]
  simp only [blankRemarks_verbatimSource, definitionStarts_verbatimSource]
  simp only [List.headD_cons, List.take_zero, Source.extents, List.foldl_cons, List.foldl_nil,
    Loaded.add, Source.define, List.take_length, List.drop_zero, define_verbatimSource]
  rfl

/-! ### Reading -/

variable {σ : Type}

/-- The verb shows its text, and does nothing else. -/
theorem run_verbatimPage (s : String) {g : Setting σ}
    (hstory : g.story = { pages := [verbatimPage s] }) (depth : Nat) (stage : Stage σ) :
    (runVerb g (depth + 1) "x" "go").run stage =
      (true, { stage with output := stage.output ++ s }) := by
  have hbelow : (verbatimPage s).below 0 = .node (.text s) .nil .nil := by
    have hnone : (verbatimPage s).forestFrom 1 [] = .nil := by
      rw [Page.forestFrom]
      rfl
    have hchild : (verbatimPage s).forestFrom 0 [1] =
        .node (.text s) ((verbatimPage s).forestFrom 1 []) .nil := by
      rw [Page.forestFrom]
      rfl
    exact hchild.trans (by rw [hnone])
  have hlookup : g.story.lookup "x" = .ok (verbatimPage s) := by
    rw [hstory]
    rfl
  rw [runVerb, hlookup]
  have hverb : (verbatimPage s).findVerb? "go" = some ⟨"go", ["go"], 0⟩ := rfl
  dsimp only
  rw [hverb]
  dsimp only
  rw [runRoot, hbelow]
  rfl

/-- Whatever a text is, a story that gives it in escaped form is loaded without a report, and
reading it gives exactly the text. -/
theorem read_verbatim (s : String) (session : Session) (config : Config)
    (hdepth : 0 < config.maxDepth) (book : Book σ) (host : σ) :
    (Story.load (verbatimSource s)).diagnostics = [] ∧
      Game.read ⟨(Story.load (verbatimSource s)).story, session, config⟩ book "x" "go" host =
        .ok (⟨s, true, []⟩, ⟨(Story.load (verbatimSource s)).story, session, config⟩, host) := by
  rw [load_verbatimSource]
  refine ⟨rfl, ?_⟩
  obtain ⟨depth, hdepth⟩ := Nat.exists_eq_succ_of_ne_zero (Nat.pos_iff_ne_zero.mp hdepth)
  have hcheck : Game.checkVerb ⟨{ pages := [verbatimPage s] }, session, config⟩ "x" "go" =
    .ok () := rfl
  rw [Game.read, hcheck]
  simp only [Except.map, Game.runVerb, hdepth]
  rw [run_verbatimPage s rfl]
  simp [Game.reading, Game.stage]

/-- A text with a quotation mark, a remark, a marker, a backslash and two line breaks. -/
def awkwardText : String :=
  "\"No // remark\", <he>\r\n\tsaid \\o/ [:go].\u00a0"

/-- The text comes out as it is. -/
theorem read_verbatim_awkwardText :
    (Story.load (verbatimSource awkwardText)).diagnostics = [] ∧
      (Game.read { story := (Story.load (verbatimSource awkwardText)).story } Book.silent "x" "go"
        ()).map (fun answer => answer.1) = .ok ⟨awkwardText, true, []⟩ := by
  have hread := read_verbatim awkwardText .fresh {} (by decide) Book.silent ()
  exact ⟨hread.1, congrArg (Except.map fun answer => answer.1) hread.2⟩

end Gamebook
