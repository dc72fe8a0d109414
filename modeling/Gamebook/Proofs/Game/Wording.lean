import Gamebook.Proofs.Game.Operations
import Gamebook.Proofs.Play.Wording
import Gamebook.Proofs.Story.Defaults

/-!
# Texts in games

What a story records fits the file of a session, which keeps each text on a line of its own, as long
as no line break is hidden behind an escape where the story gives a name: to a noun, to a verb, or
to an atom of a value in a header (`Session.Told.fits_file`). Scripts can spell no such break. What
does not fit in any other case is nothing but a line feed: no text that is recorded ends in a
carriage return, and no asset is without a name.
-/

namespace Gamebook

variable {σ : Type} {Q : String → Prop}

/-! ### Stories -/

namespace Story

/-- The end of a header has no say in the noun. -/
theorem noun_of_headerEnd {noun : String} {pattern : Option String} {rest : List Char} {h : Header}
    (hread : (match rest with
      | '=' :: value => .ok ⟨noun, pattern, some value⟩
      | rest =>
        if Text.isBlank rest then .ok ⟨noun, pattern, none⟩
        else .error (.unexpectedInHeader (String.ofList (Text.trim rest)) noun) :
      Except DefinitionProblem Header) = .ok h) : h.noun = noun := by
  split at hread
  · cases hread
    rfl
  · split at hread
    · cases hread
      rfl
    · cases hread

/-- The noun of a header does not end in a carriage return. -/
theorem noReturn_header {cs : List Char} {h : Header} (hread : Header.ofText cs = .ok h) :
    Text.NoReturn h.noun := by
  rw [Header.ofText] at hread
  dsimp only at hread
  split at hread
  · cases hread
  · have hnoun := Text.noReturn_unescape_trim
      (cs.take ((Text.find (Text.startsWithOneOf ['[', '=']) cs).getD cs.length))
    split at hread
    · split at hread
      · cases hread
      · rw [noun_of_headerEnd hread]
        exact hnoun
    · rw [noun_of_headerEnd hread]
      exact hnoun

/-- No text that a loaded story brings in ends in a carriage return. -/
theorem says_load (source : String) : (Story.load source).story.Says Text.NoReturn := by
  intro p hp
  obtain ⟨header, text, h, origin, hread, rfl⟩ := defines_load source p hp
  have hclean : Text.Feedless (String.ofList (Text.clean text)).toList := by
    rw [String.toList_ofList]
    exact Text.feedless_clean text
  refine ⟨?_, fun v hv => Page.noReturn_ofBody hv, ?_, Page.feedless_ofBody hclean,
    fun v hv b hb => Page.feedless_guard_ofBody hclean hv hb⟩
  · rw [Page.name_ofBody]
    exact noReturn_header hread
  · rw [Page.defaults_ofBody]
    rcases defaultValue_cases h origin with heq | ⟨literal, heq⟩
    · rw [heq]
      exact Value.says_of_nil rfl
    · rw [heq]
      exact fun a ha => ⟨(Value.mem_ofLiteral ha).1, Text.noReturn_ofLiteral ha⟩

/-- No name that a story gives has a line feed in it. -/
def OnLines (s : Story) : Prop :=
  ∀ p ∈ s.pages, '\n' ∉ p.name.toList ∧ (∀ v ∈ p.verbs, ∀ name ∈ v.names, '\n' ∉ name.toList) ∧
    ∀ a ∈ p.defaults.atoms, '\n' ∉ a.toList

instance (s : Story) : Decidable s.OnLines :=
  inferInstanceAs (Decidable (∀ p ∈ s.pages, _))

theorem Says.isLine {s : Story} (hs : s.Says Text.NoReturn) (h : s.OnLines) :
    s.Says Session.IsLine := by
  intro p hp
  obtain ⟨hname, hnames, hatoms⟩ := h p hp
  have hold := hs p hp
  exact ⟨⟨hname, hold.name⟩, fun v hv name hn => ⟨hnames v hv name hn, hold.names v hv name hn⟩,
    fun a ha => ⟨(hold.defaults a ha).1, hatoms a ha, (hold.defaults a ha).2⟩, hold.scripts,
    hold.guards⟩

end Story

/-! ### Actions -/

theorem Session.Says.record (hQ : Text.Robust Q) {s : Session} (hs : s.Says Q)
    (bookmark : Option (Option String)) : (Game.record s bookmark).Says Q := by
  rw [Game.record]
  split
  · exact hs
  · have hsnapshot := hs.createSnapshot hQ
    cases bookmark with
    | none => exact hsnapshot
    | some description =>
      dsimp only
      split
      next ht => exact hsnapshot.addBookmark? hQ ht
      next => exact hsnapshot

namespace Game

variable {g : Game}

/-- A noun and a verb that a story has are of the kind that its names are of. -/
theorem says_of_checkVerb (hQ : Text.Robust Q) (hstory : g.story.Says Q) {noun verb : String}
    {u : Unit} (h : g.checkVerb noun verb = .ok u) : Q noun ∧ Q verb := by
  rw [checkVerb_eq] at h
  cases hpage : g.story.page? noun with
  | none =>
    rw [hpage] at h
    cases h
  | some p =>
    rw [hpage] at h
    dsimp only at h
    have hp := hstory p (List.mem_of_find?_eq_some hpage)
    have hnoun : p.name = noun := by simpa using List.find?_some hpage
    cases hfound : p.findVerb? verb with
    | none =>
      rw [hfound] at h
      cases h
    | some v =>
      have hanswers := List.find?_some (p := fun v : Verb => v.answersTo verb) hfound
      obtain ⟨name, hname, hsame⟩ := List.any_eq_true.mp hanswers
      exact ⟨hnoun ▸ hp.name,
        hQ.recase hsame (hp.names v (List.mem_of_find?_eq_some hfound) name hname)⟩

/-- An action leaves texts of a kind in a session, if the story and the book bring in no others. -/
theorem says_after_act (hQ : Text.Robust Q) (hstory : g.story.Says Q) {book : Book σ}
    (hbook : book.Says Q) (hs : g.session.Says Q) (host : σ) (noun verb : String) :
    (g.after book host (.act noun verb)).Says Q := by
  rw [after_act]
  cases hcheck : g.checkVerb noun verb with
  | error e => exact hs
  | ok u =>
    obtain ⟨hnoun, hverb⟩ := says_of_checkVerb hQ hstory hcheck
    -- the entry is pending while the verb runs, and nothing else is brought in before it
    have hrun := says_runVerb hQ (g := g.setting book) hstory hbook g.config.maxDepth noun verb
      (g.actStage noun verb host) (hs.trim.setAction hQ hnoun hverb)
    exact hrun.2.record hQ _

end Game

/-! ### Whole games -/

/-- What a book answers with are lines. -/
structure Book.Lined (b : Book σ) : Prop where
  books : ∀ host, ∀ title ∈ b.books host, Session.IsLine title
  sessions : ∀ host, ∀ name ∈ b.sessions host, Session.IsLine name
  input : ∀ prompt host line host', b.input prompt host = (some line, host') → '\n' ∉ line.toList

theorem Book.lined_silent : Book.silent.Lined where
  books := by simp [silent]
  sessions := by simp [silent]
  input := by simp [silent]

/-- What a book says is of a robust kind to which all lines belong. -/
theorem Book.Lined.texts {b : Book σ} (hb : b.Lined) (hQ : ∀ s, Session.IsLine s → Q s)
    (hload : ∀ name host t host', b.load name host = (some t, host') → t.Says Q) : b.Says Q where
  books host title ht := hQ title (hb.books host title ht)
  sessions host name hn := hQ name (hb.sessions host name hn)
  load := hload
  input prompt host line host' hline := by
    have hfeed := hb.input prompt host line host' hline
    refine hQ _ ⟨?_, ?_⟩ <;> rw [String.toList_ofList]
    · exact fun hmem => hfeed (Text.mem_of_mem_trim hmem)
    · exact Text.getLast?_trim_ne_return _

namespace Session

variable {s : Session}

/-- The sessions that a story comes to by acting, and by stepping back and forth. A book answers
with lines, and hands out such sessions only. -/
inductive Told (story : Story) : Session → Prop where
  | start (name : String) : Told story (.named name)
  | move {s : Session} (m : Move) (hs : Told story s) : Told story (s.apply m.operation)
  | act {σ : Type} {s : Session} (config : Config) (book : Book σ) (host : σ)
      (noun verb : String) (hlined : book.Lined)
      (hbook : ∀ name host t host', book.load name host = (some t, host') → Told story t)
      (hs : Told story s) : Told story (Game.after ⟨story, s, config⟩ book host (.act noun verb))

/-- Some actions with the book that does nothing. -/
theorem Told.performed {g : Game} (h : Told g.story g.session) (acts : List (String × String)) :
    Told g.story (g.performed acts).session := by
  induction acts generalizing g with
  | nil => exact h
  | cons a acts ih =>
    have hstep : Told g.story (g.acted a).session :=
      .act g.config .silent () a.1 a.2 Book.lined_silent Book.load_silent h
    exact ih (g := g.acted a) hstep

/-- What is said of the names of a story is said of all that is recorded. -/
theorem Told.texts (hQ : Text.Robust Q) (hline : ∀ s, IsLine s → Q s) {story : Story}
    (hstory : story.Says Q) (hs : Told story s) : s.Says Q := by
  induction hs with
  | start name => exact says_named hQ name
  | move m _ ih => exact ih.move m
  | act config book host noun verb hlined _ _ ihbook ih =>
    exact Game.says_after_act (g := ⟨story, _, config⟩) hQ hstory (hlined.texts hline ihbook) ih
      host noun verb

/-- Nothing that a loaded story records ends in a carriage return, and no asset is without a name.
If no name that the story gives to a noun, to a verb or to an atom of a value has a line feed in it,
then nothing that is recorded has: all of it fits the file of a session. -/
theorem Told.fits_file {source : String} (hs : Told (Story.load source).story s) :
    (∀ entry ∈ s.history.queue, Text.NoReturn entry) ∧
    (∀ v ∈ s.history.tracked, Text.NoReturn v.name) ∧
    (∀ set ∈ s.history.assets, ∀ asset ∈ set, Text.NoReturn asset ∧ asset ≠ "") ∧
    ((Story.load source).story.OnLines → s.Linear) := by
  have hstory := Story.says_load source
  have hold := (hs.texts Text.robust_noReturn (fun _ h => h.no_return) hstory).history
  refine ⟨hold.queue, fun v hv => (hold.tracked v hv).1,
    fun set hset asset hasset => (hold.assets set hset asset hasset).symm, fun hlines => ?_⟩
  have hline := (hs.texts Text.robust_isLine (fun _ h => h) (hstory.isLine hlines)).history
  exact ⟨hline.queue, fun v hv => (hline.tracked v hv).1,
    fun set hset asset hasset => (hline.assets set hset asset hasset).symm⟩

/-- A bell that plays what is said of it. -/
def bellSource : String :=
  "[bell=cracked][:ring]!Play(@bell)&+=rung"

/-- The bell is rung, in capitals, and that is undone. -/
def bellSession : Session :=
  (Game.performed ⟨(Story.load bellSource).story, .named "tower", {}⟩
    [("bell", "RING")]).session.apply .undo

/-- All that the bell records fits the file. -/
theorem Told.fits_file_bell : bellSession.history.queue = ["bell:RING"] ∧
    bellSession.history.assets = [["cracked"]] ∧
    bellSession.history.tracked = [⟨"bell", ["cracked,rung,#0"]⟩] ∧ bellSession.Linear := by
  have hstart : Told (Story.load bellSource).story (.named "tower") := .start "tower"
  have htold : Told (Story.load bellSource).story bellSession := .move .undo
    (Told.performed (g := ⟨_, .named "tower", {}⟩) hstart [("bell", "RING")])
  obtain ⟨-, -, -, hlinear⟩ := htold.fits_file
  exact ⟨by decide +kernel, by decide +kernel, by decide +kernel, hlinear (by decide +kernel)⟩

/-- A line feed in the name of a verb, and another one in an atom of a value. -/
def brokenSource : String :=
  "[x=p\\nq][:go\\nnow]!Play(@x)&@x=lit"

/-- The session after the verb was run. -/
def brokenSession : Session :=
  (Game.performed ⟨(Story.load brokenSource).story, .named "broken", {}⟩ [("x", "go\nnow")]).session

/-- An entry of the queue, an asset and the name of a variable are broken by a line feed, and the
file that is written of the session is refused. -/
theorem told_broken : Told (Story.load brokenSource).story brokenSession ∧
    brokenSession.history.queue = ["x:go\nnow"] ∧ brokenSession.history.assets = [["p\nq"]] ∧
    brokenSession.history.tracked = [⟨"p\nq", ["lit,#0"]⟩] ∧
    ofFile brokenSession.fileText.toUTF8.toList =
      .error (.layout 4 (.badNumber .assetCount "now")) := by
  have hstart : Told (Story.load brokenSource).story (.named "broken") := .start "broken"
  refine ⟨Told.performed (g := ⟨_, .named "broken", {}⟩) hstart [("x", "go\nnow")], ?_⟩
  rw [toList_toUTF8]
  decide +kernel

end Session

end Gamebook
