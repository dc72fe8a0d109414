import Gamebook.Game
import Gamebook.Proofs.Play.Effects

/-!
# Sessions of games

A session is changed by its own operations, and by those of a game that is played with it: asking
for verbs, reading, acting, and evaluating scripts. Each of these runs a part of the story, which
may do to the session whatever its deeds can. A session that came about in this way, in whatever
order and with whatever stories and books, is `Session.Reached`; all of these are consistent
(`Session.Reached.consistent`).
-/

namespace Gamebook

variable {σ : Type}

/-! ### Operations of games -/

/-- An operation of a game. -/
inductive Game.Operation where
  | verbs (noun : String)
  | read (noun verb : String)
  | act (noun verb : String)
  | evaluate (noun script : String)
  | runBlock (noun : String) (id : Nat)

/-- The session after an operation. One that is refused leaves it as it was. -/
def Game.after (g : Game) (book : Book σ) (host : σ) : Operation → Session
  | .verbs noun => ((g.verbs book noun host).toOption.map (·.2.1.session)).getD g.session
  | .read noun verb => ((g.read book noun verb host).toOption.map (·.2.1.session)).getD g.session
  | .act noun verb => ((g.act book noun verb host).toOption.map (·.2.1.session)).getD g.session
  | .evaluate noun script => (g.evaluate book noun script host).2.1.session
  | .runBlock noun id =>
    ((g.runBlock book noun id host).toOption.map (·.2.2.1.session)).getD g.session

/-- The same story, played from another session. -/
def Game.withSession (g : Game) (s : Session) : Game :=
  { g with session := s }

/-- The game after an action, given by its noun and verb, with the book that does nothing. -/
def Game.acted (g : Game) (a : String × String) : Game :=
  g.withSession (g.after .silent () (.act a.1 a.2))

/-- The game after some actions, one after the other. -/
def Game.performed (g : Game) (acts : List (String × String)) : Game :=
  acts.foldl acted g

/-- What holds of each of some actions in its turn. -/
def Game.Throughout (P : Game → String × String → Prop) (g : Game) :
    List (String × String) → Prop
  | [] => True
  | a :: acts => P g a ∧ (g.acted a).Throughout P acts

/-- The sessions that operations lead to. A book hands out such sessions only. -/
inductive Session.Reached : Session → Prop where
  | start (name : String) : Reached { name }
  | session {s : Session} (op : Session.Operation) (hs : Reached s) : Reached (s.apply op)
  | game {σ : Type} {g : Game} (book : Book σ) (host : σ) (op : Game.Operation)
      (hbook : ∀ name host t host', book.load name host = (some t, host') → Reached t)
      (hg : Reached g.session) : Reached (g.after book host op)

/-- The book that does nothing hands out no sessions, so that any may be said of those. -/
theorem Book.load_silent {P : Session → Prop} :
    ∀ name host t host', Book.silent.load name host = (some t, host') → P t := by
  rintro name host t host' ⟨⟩

theorem Session.Reached.performed {g : Game} (h : g.session.Reached)
    (acts : List (String × String)) : (g.performed acts).session.Reached := by
  induction acts generalizing g with
  | nil => exact h
  | cons a acts ih =>
    have hstep : (g.acted a).session.Reached :=
      .game .silent () (.act a.1 a.2) Book.load_silent h
    exact ih hstep

namespace Game

instance decidableThroughout (P : Game → String × String → Prop) [∀ g a, Decidable (P g a)]
    (g : Game) : (acts : List (String × String)) → Decidable (g.Throughout P acts)
  | [] => .isTrue trivial
  | a :: acts =>
    have := decidableThroughout P (g.acted a) acts
    inferInstanceAs (Decidable (P g a ∧ (g.acted a).Throughout P acts))

theorem Throughout.combine {P Q R : Game → String × String → Prop} {g : Game}
    {acts : List (String × String)} (hP : g.Throughout P acts) (hQ : g.Throughout Q acts)
    (h : ∀ g a, P g a → Q g a → R g a) : g.Throughout R acts := by
  induction acts generalizing g with
  | nil => trivial
  | cons a acts ih => exact ⟨h g a hP.1 hQ.1, ih hP.2 hQ.2⟩

variable (g : Game) (book : Book σ)

/-- A verb or script of a game runs through the known steps. -/
theorem scripted_runVerb {V : Value → Prop} (hV : Value.Lasting V) (noun verb : String) :
    Scripted (g.setting book) V (fun _ => True) (g.runVerb book noun verb)
      (verbDeeds (g.setting book) g.config.maxDepth noun verb) :=
  Gamebook.scripted_runVerb (g.setting book) hV g.config.maxDepth noun verb

theorem scripted_availableVerbs {V : Value → Prop} (hV : Value.Lasting V) (p : Page)
    (verbs : List Verb) :
    ∃ d, Scripted (g.setting book) V (fun _ => True) (g.availableVerbs book p verbs) d := by
  induction verbs with
  | nil => exact ⟨.none, .pure trivial⟩
  | cons v rest ih =>
    obtain ⟨d, hrest⟩ := ih
    have hfirst := scripted_verbAvailable (g.setting book) hV (g.runVerb book) _
      (g.scripted_runVerb book hV) p v.root
    exact ⟨_, .bind hfirst fun _ _ => .map hrest fun _ _ => trivial⟩

/-- What an action runs on: the session without what was undone, waiting for the action. -/
def actStage (noun verb : String) (host : σ) : Stage σ :=
  { session := g.session.trim.setAction noun verb, host }

/-- The deeds of an action. -/
def actDeeds (noun verb : String) (host : σ) : List Deed :=
  verbDeeds (g.setting book) g.config.maxDepth noun verb (g.actStage noun verb host)

/-- What an action leaves behind before it is recorded. -/
def actRun (noun verb : String) (host : σ) : Bool × Stage σ :=
  (g.runVerb book noun verb).run (g.actStage noun verb host)

/-- The session in which an action was recorded. -/
def actSession (noun verb : String) (host : σ) : Session :=
  record (g.actRun book noun verb host).2.session (g.actRun book noun verb host).2.bookmark

/-- An action that is still waiting is recorded, with the bookmark it asked for. -/
theorem record_of_pending {s : Session} (hpending : s.pending.isSome)
    (bookmark : Option (Option String)) : record s bookmark =
      match bookmark with
      | none => s.createSnapshot
      | some description => match s.createSnapshot.addBookmark? description with
        | some (t, _) => t
        | none => s.createSnapshot := by
  rw [Option.isSome_iff_ne_none, ne_eq, ← Option.isNone_iff_eq_none] at hpending
  rw [record]
  exact if_neg hpending

/-- But for the bookmark, recording an action is taking a snapshot. -/
theorem exists_record_of_pending {s : Session} (hpending : s.pending.isSome)
    (bookmark : Option (Option String)) :
    ∃ bookmarks, record s bookmark = { s.createSnapshot with bookmarks } := by
  rw [record_of_pending hpending]
  cases bookmark with
  | none => exact ⟨s.createSnapshot.bookmarks, rfl⟩
  | some description =>
    dsimp only
    split
    next t queue ht =>
      obtain ⟨bookmarks, rfl⟩ := Session.eq_of_addBookmark? ht
      exact ⟨bookmarks, rfl⟩
    next => exact ⟨s.createSnapshot.bookmarks, rfl⟩

/-- The deeds of an action lead to the session that it leaves behind. -/
theorem leads_act {V : Value → Prop} (hV : Value.Lasting V) (hg : (g.setting book).Gives V)
    (noun verb : String) (host : σ)
    (hs : (g.session.trim.setAction noun verb).Holds V) :
    Leads (g.setting book) V (g.session.trim.setAction noun verb)
      (g.actDeeds book noun verb host) (g.actRun book noun verb host).2.session :=
  ((g.scripted_runVerb book hV noun verb).leads hV hg (s := g.actStage noun verb host) hs).2

/-- An action that does not jump leaves a session in which only the name, the values and the assets
are other ones, waiting to be recorded. -/
theorem session_actRun (noun verb : String) (host : σ)
    (hstay : ∀ d ∈ g.actDeeds book noun verb host, d.jumps = false) : ∃ name values assets,
      (g.actRun book noun verb host).2.session =
        { g.session.trim.setAction noun verb with name, values, assets } :=
  (g.leads_act book Value.lasting_true (g.setting book).gives_true noun verb host
    fun _ _ _ => trivial).stays rfl hstay

theorem checkVerb_eq (noun verb : String) : g.checkVerb noun verb =
    match g.story.page? noun with
    | none => .error (.pageNotFound noun)
    | some p => if (p.findVerb? verb).isNone then .error (.verbNotFound noun verb) else .ok () := by
  rw [checkVerb, page]
  cases g.story.page? noun <;> rfl

/-- An action is refused if there is no such page or verb, and else it is recorded. -/
theorem act_eq (noun verb : String) (host : σ) : g.act book noun verb host =
    match g.checkVerb noun verb with
    | .error e => .error e
    | .ok _ =>
      let (ran, s) := g.actRun book noun verb host
      .ok (g.reading s ran, { g with session := g.actSession book noun verb host }, s.host) := by
  rw [act]
  cases g.checkVerb noun verb <;> rfl

/-- An action of a page and a verb that are there goes through. -/
theorem act_of_findVerb? {noun verb : String} {p : Page} {v : Verb}
    (hp : g.story.page? noun = some p) (hv : p.findVerb? verb = some v) (host : σ) :
    g.act book noun verb host =
      .ok (g.reading (g.actRun book noun verb host).2 (g.actRun book noun verb host).1,
        { g with session := g.actSession book noun verb host },
        (g.actRun book noun verb host).2.host) := by
  rw [act_eq, checkVerb_eq, hp]
  simp [hv]

/-- The session after an action that may be refused. -/
theorem after_act (noun verb : String) (host : σ) : g.after book host (.act noun verb) =
    match g.checkVerb noun verb with
    | .error _ => g.session
    | .ok _ => g.actSession book noun verb host := by
  rw [after, act_eq]
  cases g.checkVerb noun verb <;> rfl

variable {g} {a : String × String}

theorem acted_of_error {e : GameError} (h : g.checkVerb a.1 a.2 = .error e) : g.acted a = g := by
  rw [acted, after_act, h]
  rfl

theorem session_acted_of_ok {u : Unit} (h : g.checkVerb a.1 a.2 = .ok u) :
    (g.acted a).session = g.actSession .silent a.1 a.2 () := by
  rw [acted, after_act, h]
  rfl

/-- Actions change the session of a game only. -/
theorem performed_eq (g : Game) (acts : List (String × String)) :
    g.performed acts = g.withSession (g.performed acts).session := by
  induction acts generalizing g with
  | nil => rfl
  | cons a acts ih => exact ih (g.acted a)

theorem story_performed (g : Game) (acts : List (String × String)) :
    (g.performed acts).story = g.story := by
  rw [performed_eq]
  rfl

end Game

/-! ### Consistency -/

namespace Session

variable {s t : Session}

/-- Every deed keeps a session consistent, if the book hands out consistent ones. -/
theorem Consistent.effect {g : Setting σ} {V : Value → Prop}
    (hbook : ∀ name host t host', g.book.load name host = (some t, host') → t.Consistent)
    (hc : s.Consistent) {deed : Deed} (he : Effect g V s deed t) : t.Consistent := by
  cases he with
  | change | switch | rename => exact hc.congr rfl rfl hc.current_lt rfl
  | nothing => exact hc
  | load args ht => exact hbook _ _ _ _ ht
  | restart args name =>
    rw [Function.renameTo]
    split
    · exact consistent_new _
    · exact consistent_new _
  | bookmark hf args answer hpending ht =>
    exact hc.addBookmark? ht
  | jump args ht => exact hc.loadSnapshot? ht

theorem Consistent.record (hc : s.Consistent) (bookmark : Option (Option String)) :
    (Game.record s bookmark).Consistent := by
  rw [Game.record]
  split
  · exact hc
  · cases bookmark with
    | none => exact hc.createSnapshot
    | some description =>
      dsimp only
      split
      next ht => exact hc.createSnapshot.addBookmark? ht
      next => exact hc.createSnapshot

/-- Taking up an action keeps a session consistent. -/
theorem Consistent.setAction (hc : s.Consistent) (noun verb : String) :
    (s.setAction noun verb).Consistent :=
  hc.congr rfl rfl hc.current_lt rfl

theorem Consistent.after {g : Game} (hc : g.session.Consistent) (book : Book σ)
    (hbook : ∀ name host t host', book.load name host = (some t, host') → t.Consistent)
    (host : σ) (op : Game.Operation) : (g.after book host op).Consistent := by
  have hV := Value.lasting_true
  have hrun : ∀ {α : Type} {m : Run σ α} {d : Deeds σ} {s : Stage σ},
      Scripted (g.setting book) (fun _ => True) (fun _ => True) m d → s.session.Consistent →
        (m.run s).2.session.Consistent := by
    intro α m d s hm hs
    refine (hm.leads hV (g.setting book).gives_true fun _ _ _ => trivial).2.invariant ?_ hs
    exact fun _ he ht => ht.effect hbook he
  have hverb := g.scripted_runVerb book hV
  cases op with
  | verbs noun =>
    rw [Game.after, Game.verbs]
    cases g.page noun with
    | error e => exact hc
    | ok p =>
      obtain ⟨d, hverbs⟩ := g.scripted_availableVerbs book hV p p.verbs
      exact hrun hverbs (s := g.stage host) hc
  | read noun verb =>
    rw [Game.after, Game.read]
    cases g.checkVerb noun verb with
    | error e => exact hc
    | ok _ => exact hrun (hverb noun verb) (s := g.stage host) hc
  | act noun verb =>
    rw [Game.after, Game.act]
    cases g.checkVerb noun verb with
    | error e => exact hc
    | ok _ =>
      have hstart := hc.trim.setAction noun verb
      exact (hrun (hverb noun verb) (s := g.actStage noun verb host) hstart).record _
  | evaluate noun script =>
    exact hrun (scripted_evalScript (g.setting book) hV _ _ hverb noun script)
      (s := g.stage host) hc
  | runBlock noun id =>
    rw [Game.after, Game.runBlock]
    cases g.page noun with
    | error e => exact hc
    | ok p =>
      dsimp only [Except.map]
      cases p.block? id with
      | none => exact hc
      | some b =>
        have hforest := scripted_runForest (g.setting book) hV _ _ hverb p.name (p.below id) none
        exact hrun (scripted_runBlock (g.setting book) hV _ _ hverb p.name b hforest)
          (s := g.stage host) hc

/-- Every session that operations lead to is consistent. -/
theorem Reached.consistent (h : s.Reached) : s.Consistent := by
  induction h with
  | start name => exact consistent_new name
  | session op _ ih => exact ih.apply op
  | game book host op _ _ ihbook ih => exact ih.after book ihbook host op

end Session

end Gamebook
