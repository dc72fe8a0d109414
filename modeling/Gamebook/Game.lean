import Gamebook.Play.Verb

/-!
# Games

A game is a story being played: the story, the session and some settings. The player can ask which
verbs a noun offers, read what a verb says, and take an action. Reading changes the session but
leaves no trace in the history; an action is recorded, so that it can be undone.
-/

namespace Gamebook

/-- Settings of a game. -/
structure Config where
  /-- How many verbs may be running at once. -/
  maxDepth : Nat := 64
  /-- Whether problems are shown to the player. -/
  echo : Bool := false
  deriving DecidableEq, Repr

/-- Set how many verbs may be running at once, at least one. -/
def Config.withMaxDepth (c : Config) (depth : Nat) : Config :=
  { c with maxDepth := max depth 1 }

/-- A story being played. -/
structure Game where
  story : Story
  session : Session := .fresh
  config : Config := {}

/-- What a verb said, and what went wrong. -/
structure Reading where
  text : String
  /-- Whether the guard of the verb, or what was evaluated, held. -/
  ran : Bool
  diagnostics : List Diagnostic
  deriving DecidableEq, Repr

/-- What a story cannot answer at all. -/
inductive GameError where
  | pageNotFound (noun : String)
  | verbNotFound (noun verb : String)
  deriving DecidableEq, Repr

/-- The text of an error. -/
def GameError.message : GameError → String
  | pageNotFound noun => s!"page not found: [{noun}]"
  | verbNotFound noun verb => s!"verb not found: [{noun}:{verb}]"

namespace Game

variable {σ α : Type}

/-! ### Running -/

/-- What the runs of a game have in common. -/
def setting (g : Game) (book : Book σ) : Setting σ :=
  ⟨g.story, book, g.config.maxDepth⟩

/-- The stage of a run that starts. -/
def stage (g : Game) (host : σ) : Stage σ :=
  { session := g.session, host }

/-- What a run left behind, as the player sees it. -/
def reading (g : Game) (s : Stage σ) (ran : Bool) : Reading :=
  let shown := if g.config.echo then s.diagnostics.map fun d => s!"\n[{d.display}]" else []
  ⟨s.output ++ String.join shown, ran, s.diagnostics⟩

/-- Run a verb of a noun. -/
def runVerb (g : Game) (book : Book σ) (noun verb : String) : Run σ Bool :=
  Gamebook.runVerb (g.setting book) g.config.maxDepth noun verb

/-! ### Observations -/

/-- The value of a noun: the session's, or else the story's. -/
def value? (g : Game) (noun : String) : Option Value :=
  (g.session.value? noun).or ((g.story.page? noun).map (·.defaults))

/-- The page of a noun. -/
def page (g : Game) (noun : String) : Except GameError Page :=
  match g.story.page? noun with
  | some p => .ok p
  | none => .error (.pageNotFound noun)

/-- Refuse a verb that cannot be found. -/
def checkVerb (g : Game) (noun verb : String) : Except GameError Unit := do
  let p ← g.page noun
  if (p.findVerb? verb).isNone then throw (.verbNotFound noun verb)

/-! ### Playing -/

/-- The visual names of those verbs whose guards hold. -/
def availableVerbs (g : Game) (book : Book σ) (p : Page) : List Verb → Run σ (List String)
  | [] => return []
  | v :: rest => do
    let available ← verbAvailable (g.setting book) (g.runVerb book) p v.root
    let more ← availableVerbs g book p rest
    return if available then v.visualName :: more else more

/-- The verbs that a noun offers. -/
def verbs (g : Game) (book : Book σ) (noun : String) (host : σ) :
    Except GameError (List String × Game × σ) :=
  (g.page noun).map fun p =>
    let (names, s) := (g.availableVerbs book p p.verbs).run (g.stage host)
    (names, { g with session := s.session }, s.host)

/-- Run a verb, without a snapshot. -/
def read (g : Game) (book : Book σ) (noun verb : String) (host : σ) :
    Except GameError (Reading × Game × σ) :=
  (g.checkVerb noun verb).map fun _ =>
    let (ran, s) := (g.runVerb book noun verb).run (g.stage host)
    (g.reading s ran, { g with session := s.session }, s.host)

/-- Record an action in the session that it left, with the bookmark it asked for. An action that
moved through the history is its own effect and is not recorded. -/
def record (s : Session) (bookmark : Option (Option String)) : Session :=
  if s.pending.isNone then s
  else
    let s := s.createSnapshot
    match bookmark with
    | none => s
    | some description => match s.addBookmark? description with
      | some (t, _) => t
      | none => s

/-- Take an action: discard what was undone, run the verb, and record it. -/
def act (g : Game) (book : Book σ) (noun verb : String) (host : σ) :
    Except GameError (Reading × Game × σ) :=
  (g.checkVerb noun verb).map fun _ =>
    let g := { g with session := g.session.trim.setAction noun verb }
    let (ran, s) := (g.runVerb book noun verb).run (g.stage host)
    (g.reading s ran, { g with session := record s.session s.bookmark }, s.host)

/-- Evaluate a script on the page of a noun. -/
def evaluate (g : Game) (book : Book σ) (noun script : String) (host : σ) : Reading × Game × σ :=
  let (v, s) := (evalScript (g.setting book) (g.runVerb book) noun script).run (g.stage host)
  (g.reading s v.holds, { g with session := s.session }, s.host)

/-- Run one block of a page. How many scopes to leave comes with the reading. -/
def runBlock (g : Game) (book : Book σ) (noun : String) (id : Nat) (host : σ) :
    Except GameError (Nat × Reading × Game × σ) :=
  (g.page noun).map fun p =>
    let run : Run σ (Bool × Nat) := match p.block? id with
      | none => return (false, 0)
      | some b =>
        let verb := g.runVerb book
        let body := runForest (g.setting book) verb p.name none (p.below id)
        Gamebook.runBlock (g.setting book) verb p.name b body
    let ((ran, breaks), s) := run.run (g.stage host)
    (breaks, g.reading s ran, { g with session := s.session }, s.host)

end Game

end Gamebook
