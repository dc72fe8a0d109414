import Gamebook.Game
import Gamebook.Proofs.Page.Scripts
import Gamebook.Proofs.Play.Parallel

/-!
# Pages without errors

Scripts are looked through when a page is loaded, and read again when they run. What was without
errors then is so now: if no error is reported of the body of a page, no run of the story ever
reports one of the spelling of its scripts (`Page.faultless_ofBody`). The conditions that stand
above a verb are looked through one by one, while the script at the root of the verb is made of all
of them.

Reports are told apart by their texts. No other problem has one that begins as those of the errors
of spelling do.
-/

namespace Gamebook

open Script

/-! ### Texts of reports -/

/-- The first letters of a text, three at most. -/
def startOf (s : String) : List Char :=
  s.toList.take 3

theorem startOf_append (s t : String) (h : 3 ≤ s.toList.length) :
    startOf (s ++ t) = startOf s := by
  rw [startOf, String.toList_append, List.take_append_of_le_length h, startOf]

/-- What the texts of the errors of spelling begin with. -/
def syntaxStarts : List (List Char) :=
  [['u', 'n', 'e'], ['f', 'o', 'u'], ['i', 'n', 'v'], ['e', 'x', 'p']]

theorem startOf_syntaxError (e : SyntaxError) (script : String) :
    startOf (RunProblem.syntaxError e script).message ∈ syntaxStarts := by
  have hstart : ∀ s t : String, startOf s ∈ syntaxStarts → 3 ≤ s.toList.length →
      startOf (s ++ t) ∈ syntaxStarts := by
    intro s t hs hlength
    rwa [startOf_append s t hlength]
  have hmessage : startOf (e.message ++ (" in `" ++ (script ++ "`"))) ∈ syntaxStarts := by
    cases e with
    | unexpectedCharacter c =>
      show startOf ("unexpected character: " ++ Text.quoted [c] ++ _) ∈ syntaxStarts
      rw [String.append_assoc]
      exact hstart _ _ (by decide +kernel) (by decide +kernel)
    | unexpected found expected =>
      show startOf ("found " ++ _ ++ _ ++ _ ++ _) ∈ syntaxStarts
      rw [String.append_assoc, String.append_assoc, String.append_assoc]
      exact hstart _ _ (by decide +kernel) (by decide +kernel)
    | badInteger numeral =>
      show startOf ("invalid integer: " ++ numeral ++ _) ∈ syntaxStarts
      rw [String.append_assoc]
      exact hstart _ _ (by decide +kernel) (by decide +kernel)
    | unmarkedSegment body =>
      show startOf ("expected `?` or `!` segment, found " ++ Text.quoted body.toList ++ _) ∈
        syntaxStarts
      rw [String.append_assoc]
      exact hstart _ _ (by decide +kernel) (by decide +kernel)
    | missingSegment => exact hstart _ _ (by decide +kernel) (by decide +kernel)
    | badConnector found =>
      show startOf ("expected `&` or `|` between segments, found " ++ Text.quotedChar found ++ _) ∈
        syntaxStarts
      rw [String.append_assoc]
      exact hstart _ _ (by decide +kernel) (by decide +kernel)
  show startOf (e.message ++ " in `" ++ script ++ "`") ∈ syntaxStarts
  rwa [String.append_assoc, String.append_assoc]

theorem startOf_problem {p : RunProblem} (h : p.isSyntax = false) :
    startOf p.message ∉ syntaxStarts := by
  have hstart : ∀ s t : String, startOf s ∉ syntaxStarts → 3 ≤ s.toList.length →
      startOf (s ++ t) ∉ syntaxStarts := by
    intro s t hs hlength
    rwa [startOf_append s t hlength]
  cases p with
  | syntaxError e script => cases h
  | noTarget | divisionByZero | namelessCall | strayElse => decide +kernel
  | unknownFunction name suggestion =>
    cases suggestion with
    | none =>
      show startOf ("unknown function: " ++ name) ∉ syntaxStarts
      exact hstart _ _ (by decide +kernel) (by decide +kernel)
    | some other =>
      show startOf ("unknown function: " ++ name ++ _ ++ _ ++ _) ∉ syntaxStarts
      rw [String.append_assoc, String.append_assoc, String.append_assoc]
      exact hstart _ _ (by decide +kernel) (by decide +kernel)
  | selectionOutOfRange index =>
    show startOf ("selection " ++ _ ++ _) ∉ syntaxStarts
    rw [String.append_assoc]
    exact hstart _ _ (by decide +kernel) (by decide +kernel)
  | verbNotFound noun verb =>
    show startOf ("verb not found: [" ++ _ ++ _ ++ _ ++ _) ∉ syntaxStarts
    rw [String.append_assoc, String.append_assoc, String.append_assoc]
    exact hstart _ _ (by decide +kernel) (by decide +kernel)
  | tooDeep noun verb limit =>
    -- the first letter is enough, and the noun behind it may be empty
    show startOf ("[" ++ noun ++ ":" ++ verb ++ _ ++ _ ++ _) ∉ syntaxStarts
    simp only [String.append_assoc]
    rw [startOf, String.toList_append]
    show '[' :: List.take 2 _ ∉ syntaxStarts
    simp [syntaxStarts]
  | emptyCondition script =>
    show startOf ("condition " ++ _ ++ _) ∉ syntaxStarts
    rw [String.append_assoc]
    exact hstart _ _ (by decide +kernel) (by decide +kernel)

/-! ### Errors of spelling -/

/-- Whether a report is about the spelling of a script on the page of a noun. -/
def Diagnostic.IsSyntaxOf (noun : String) (d : Diagnostic) : Prop :=
  ∃ (e : SyntaxError) (script : String), d = (RunProblem.syntaxError e script).diagnostic noun

theorem Diagnostic.not_isSyntaxOf {noun : String} {d : Diagnostic}
    (h : startOf d.message ∉ syntaxStarts) : ¬ d.IsSyntaxOf noun := by
  rintro ⟨e, script, rfl⟩
  exact h (startOf_syntaxError e script)

/-- The label of a report names the noun. -/
theorem RunProblem.noun_of_isSyntaxOf {p : RunProblem} {noun noun' : String}
    (h : (p.diagnostic noun').IsSyntaxOf noun) : noun' = noun := by
  obtain ⟨e, script, heq⟩ := h
  have hlabel : "in [" ++ noun' ++ "]" = "in [" ++ noun ++ "]" :=
    Option.some.inj (congrArg Diagnostic.label heq)
  simpa [← String.toList_inj] using hlabel

/-- That a noun has no page is no error of spelling. -/
theorem Story.not_isSyntaxOf_lookup {s : Story} {noun : String} {d : Diagnostic}
    (h : s.lookup noun = .error d) (noun' : String) : ¬ d.IsSyntaxOf noun' := by
  rw [lookup] at h
  split at h
  next => cases h
  next =>
    cases h
    refine Diagnostic.not_isSyntaxOf ?_
    show startOf ("page not found: [" ++ noun ++ _) ∉ syntaxStarts
    rw [String.append_assoc, startOf_append _ _ (by decide +kernel)]
    decide +kernel

/-- Whether the scripts of a page have no errors, those at the roots of its verbs included. -/
structure Page.Faultless (p : Page) : Prop where
  blocks : ∀ b ∈ p.blocks, b.isExecuted → Clean b.expression
  roots : ∀ v ∈ p.verbs, ∃ b, p.block? v.root = some b ∧ b.isExecuted

/-- Of the spelling of the scripts on a page without errors a story has nothing to report. -/
theorem Page.Faultless.reports {p : Page} (hp : p.Faultless) {story : Story}
    (hstory : story.page? p.name = some p) : story.Reports fun d => ¬ d.IsSyntaxOf p.name := by
  have hpermits : ∀ {noun : String} {page : Page} {script : String},
      story.page? noun = some page → (page = p → Clean script) →
        Permits (fun d => ¬ d.IsSyntaxOf p.name) page.name script := by
    intro noun page script hpage hclean e he hsyntax
    -- there is one page of the noun only
    have hname : page.name = p.name := RunProblem.noun_of_isSyntaxOf hsyntax
    have hnoun : page.name = noun := by simpa using List.find?_some hpage
    rw [← hnoun, hname, hstory] at hpage
    rw [hclean (Option.some.inj hpage).symm] at he
    cases he
  constructor
  case problem => exact fun noun q hq => Diagnostic.not_isSyntaxOf (startOf_problem hq)
  case lookup => exact fun noun d hd => Story.not_isSyntaxOf_lookup hd p.name
  case blocks =>
    intro noun page hpage b hb hexecuted
    refine hpermits hpage ?_
    rintro rfl
    exact hp.blocks b hb hexecuted
  case guards =>
    intro noun page hpage v hv b hb
    refine hpermits hpage ?_
    rintro rfl
    obtain ⟨b', hb', hexecuted⟩ := hp.roots v hv
    rw [hb] at hb'
    cases hb'
    exact hp.blocks b (List.mem_of_getElem? hb) hexecuted

/-! ### Games -/

section Runs

variable {σ α : Type} {P : Diagnostic → Prop}

/-- A part of a run reports what is of a kind, as far as all was before. -/
theorem Run.Along.reports {m : Run σ α} (hm : Run.Along Eq P m m) {s : Stage σ}
    (hs : ∀ d ∈ s.diagnostics, P d) : ∀ d ∈ (m.run s).2.diagnostics, P d :=
  (hm s s ⟨rfl, rfl, rfl, rfl, rfl, hs⟩).2.reports

namespace Game

variable {g : Game} (hP : g.story.Reports P) (book : Book σ)

include hP

theorem along_runVerb (noun verb : String) :
    Run.Along Eq P (g.runVerb book noun verb) (g.runVerb book noun verb) :=
  Gamebook.along_runVerb (g := g.setting book) book.matches_self hP g.config.maxDepth noun verb

/-- Asking for the verbs of a page reports nothing else. -/
theorem along_availableVerbs {noun : String} {p : Page} (hp : g.story.page? noun = some p)
    {verbs : List Verb} (hverbs : ∀ v ∈ verbs, v ∈ p.verbs) :
    Run.Along Eq P (g.availableVerbs book p verbs) (g.availableVerbs book p verbs) := by
  induction verbs with
  | nil => exact .pure _
  | cons v rest ih =>
    have hfirst : Run.Along Eq P (verbAvailable (g.setting book) (g.runVerb book) p v.root)
        (verbAvailable (g.setting book) (g.runVerb book) p v.root) :=
      along_verbAvailable (g := g.setting book) book.matches_self hP (g.along_runVerb hP book) hp
        (hverbs v List.mem_cons_self)
    exact .bind hfirst fun available =>
      .map _ (ih fun w hw => hverbs w (List.mem_cons_of_mem v hw))

/-- Reading a verb reports nothing else. -/
theorem reports_read {noun verb : String} {host host' : σ} {r : Reading} {g' : Game}
    (h : g.read book noun verb host = .ok (r, g', host')) : ∀ d ∈ r.diagnostics, P d := by
  rw [read] at h
  cases hcheck : g.checkVerb noun verb with
  | error e =>
    rw [hcheck] at h
    cases h
  | ok _ =>
    rw [hcheck] at h
    cases h
    exact (along_runVerb hP book noun verb).reports fun _ hd => absurd hd List.not_mem_nil

/-- Acting reports nothing else. -/
theorem reports_act {noun verb : String} {host host' : σ} {r : Reading} {g' : Game}
    (h : g.act book noun verb host = .ok (r, g', host')) : ∀ d ∈ r.diagnostics, P d := by
  rw [act] at h
  cases hcheck : g.checkVerb noun verb with
  | error e =>
    rw [hcheck] at h
    cases h
  | ok _ =>
    rw [hcheck] at h
    cases h
    exact (along_runVerb (g := { g with session := g.session.trim.setAction noun verb }) hP book
      noun verb).reports fun _ hd => absurd hd List.not_mem_nil

end Game

end Runs

/-! ### Pages that are read without errors -/

/-- The scripts of a page in whose body no error is reported have none, and neither has what is made
of the conditions above its verbs. So whatever the session and the book, nothing is reported of
their spelling when the verbs of the page are asked for, and when a verb is read or an action is
taken. -/
theorem Page.faultless_ofBody {name : String} {defaults : Value} {body : String} {origin : Span}
    {p : Page} {reports : List Diagnostic}
    (hread : Page.ofBody { name, defaults } body origin = (p, reports))
    (herrors : ∀ d ∈ reports, d.isError = false) :
    (∀ b ∈ p.blocks, b.isExecuted → (Chain.ofText b.expression).2 = [] ∧
      ∀ part ∈ (Chain.ofText b.expression).1.segments, part.2 ≠ .invalid) ∧
    (∀ v ∈ p.verbs, ∃ conditions b, p.block? v.root = some b ∧ b.isExecuted ∧
      b.expression = foldChains conditions) ∧
    ∀ {σ : Type} (g : Game) (book : Book σ) (host : σ), g.story.page? name = some p →
      (∀ d ∈ ((g.availableVerbs book p p.verbs).run (g.stage host)).2.diagnostics,
        ¬ d.IsSyntaxOf name) ∧
      ∀ noun verb r g' host',
        g.read book noun verb host = .ok (r, g', host') ∨
          g.act book noun verb host = .ok (r, g', host') →
        ∀ d ∈ r.diagnostics, ¬ d.IsSyntaxOf name := by
  have hpage : (Page.ofBody { name, defaults } body origin).1 = p := congrArg Prod.fst hread
  have hclean : ∀ b ∈ p.blocks, b.isExecuted → Clean b.expression := by
    rw [← hpage]
    exact Page.clean_ofBody rfl (by rwa [hread])
  have hroots : ∀ v ∈ p.verbs, ∃ b, p.block? v.root = some b ∧ b.isExecuted := by
    rw [← hpage]
    exact Page.rooted_ofBody rfl body origin
  have hname : p.name = name := by
    rw [← hpage]
    exact Page.name_ofBody _ body origin
  refine ⟨fun b hb hexecuted => ⟨hclean b hb hexecuted, (hclean b hb hexecuted).valid⟩, ?_, ?_⟩
  · intro v hv
    obtain ⟨b, hb, hexecuted⟩ := hroots v hv
    have hguards := Page.guards_ofBody (hpage ▸ hv) List.not_mem_nil
    rw [hpage] at hguards
    obtain ⟨conditions, -, ⟨b', hb', hfolded⟩, -⟩ := hguards
    rw [hb] at hb'
    cases hb'
    exact ⟨conditions, b, hb, hexecuted, hfolded⟩
  · intro σ g book host hstory
    have hP : g.story.Reports fun d => ¬ d.IsSyntaxOf name := by
      rw [← hname] at hstory ⊢
      exact Page.Faultless.reports ⟨hclean, hroots⟩ hstory
    refine ⟨?_, fun noun verb r g' host' hreading => ?_⟩
    · exact (Game.along_availableVerbs hP book hstory fun _ => id).reports fun _ hd =>
        absurd hd List.not_mem_nil
    · exact hreading.elim (Game.reports_read hP book) (Game.reports_act hP book)

/-- A chest that is opened with a key, by lamplight. -/
def chestBody : String :=
  "?lamp\x7b?'a \\[key'[:open][:unlock]" ++
    "?@rust\x7b!'a \\[key'-=#1\x7d\x7b!chest+=open<\x7d\"It opens.\"\x7d"

/-- The page of the chest. -/
def chestPage : Page where
  name := "chest"
  source := chestBody
  verbs := [⟨"open", ["open", "unlock"], 0⟩]
  blocks := [⟨.script, "[?lamp]&[?'a \\[key']", [1, 3, 5]⟩, ⟨.script, "[?@rust]", [2]⟩,
    .script "[!'a \\[key'-=#1]", ⟨.otherwise, "", [4]⟩, .script "[!chest+=open<]",
    .text "It opens."]

/-- A story of nothing but the chest. -/
def chestGame : Game :=
  ⟨⟨[chestPage], .empty⟩, .named "cellar", {}⟩

/-- The guard of the verb is made of two conditions, one with a bracket in it. That there is no page
for the rust is reported of the run, and no error of spelling. -/
theorem Page.faultless_ofBody_chest :
    Page.ofBody { name := "chest" } chestBody ⟨0, 0⟩ = (chestPage, []) ∧
    (∀ b ∈ chestPage.blocks, b.isExecuted → (Chain.ofText b.expression).2 = []) ∧
    (chestGame.read .silent "chest" "open" ()).toOption.map
      (fun x => (x.1.text, x.1.diagnostics.map (·.message))) =
        some ("It opens.", ["page not found: [rust]"]) ∧
    ∀ r g' host', chestGame.read .silent "chest" "open" () = .ok (r, g', host') →
      ∀ d ∈ r.diagnostics, ¬ d.IsSyntaxOf "chest" := by
  have hread : Page.ofBody { name := "chest" } chestBody ⟨0, 0⟩ = (chestPage, []) := by
    decide +kernel
  obtain ⟨hblocks, -, hruns⟩ := Page.faultless_ofBody hread fun _ hd => absurd hd List.not_mem_nil
  obtain ⟨-, hreadings⟩ := hruns chestGame .silent () (by decide +kernel)
  exact ⟨hread, fun b hb hx => (hblocks b hb hx).1, by decide +kernel,
    fun r g' host' hr => hreadings "chest" "open" r g' host' (.inl hr)⟩

end Gamebook
