import Gamebook.Proofs.Game.UpToDate
import Gamebook.Proofs.Play.Lockstep

/-!
# Discarded branches

A player acts, steps back over these actions one by one, and acts otherwise. Then what is said, what
is seen and what is in the logs is as if the first actions had never been
(`Game.performed_undone`).

A name that was given to the session on the branch stays, though. And the branch can be stepped
forward to as long as no other action takes its place.

The two sessions go on as twins (`Session.Twins`): they are alike, and have the same past as soon as
what was undone is discarded. An action asks for no more, so that each one keeps them twins
(`Twins.acted`).
-/

namespace Gamebook

/-! ### Rows of actions -/

namespace Game

/-- What some actions say, or why they are refused. -/
def sayings (g : Game) : List (String × String) → List (Except GameError Reading)
  | [] => []
  | a :: acts => (g.act .silent a.1 a.2 ()).map (·.1) :: (g.acted a).sayings acts

/-- How many of some actions are not refused. -/
def taken (g : Game) (acts : List (String × String)) : Nat :=
  acts.countP fun a => (g.checkVerb a.1 a.2).isOk

/-- The game after stepping back so many times. -/
def undone (g : Game) (n : Nat) : Game :=
  g.withSession (g.session.undone n)

/-- An action that asks nothing about the past, and for the name of the session only if that is
known. -/
def Forward (known : Prop) (g : Game) (a : String × String) : Prop :=
  ∀ d ∈ g.actDeeds .silent a.1 a.2 (), d.aboutPast = false ∧ (d.asksName = true → known)

instance (known : Prop) [Decidable known] (g : Game) (a : String × String) :
    Decidable (g.Forward known a) :=
  inferInstanceAs (Decidable (∀ d ∈ _, _))

variable {g : Game} {a : String × String} {known : Prop}

theorem Forward.jumps_eq (h : g.Forward known a) :
    ∀ d ∈ g.actDeeds .silent a.1 a.2 (), d.jumps = false :=
  fun d hd => d.jumps_of_not_aboutPast (h d hd).1

theorem taken_cons (g : Game) (a : String × String) (acts : List (String × String)) :
    g.taken (a :: acts) = g.taken acts + if (g.checkVerb a.1 a.2).isOk then 1 else 0 :=
  List.countP_cons

theorem performed_undone_eq (g : Game) (acts : List (String × String)) (n : Nat) :
    (g.performed acts).undone n = g.withSession ((g.performed acts).session.undone n) := by
  rw [undone, performed_eq]
  rfl

/-- Actions that are all refused do nothing. -/
theorem performed_of_taken_eq_zero {acts : List (String × String)} (hnone : g.taken acts = 0) :
    g.performed acts = g := by
  induction acts with
  | nil => rfl
  | cons a acts ih =>
    rw [taken_cons] at hnone
    cases hcheck : g.checkVerb a.1 a.2 with
    | error e =>
      rw [hcheck] at hnone
      show (g.acted a).performed acts = g
      rw [acted_of_error hcheck]
      exact ih hnone
    | ok _ =>
      rw [hcheck] at hnone
      exact absurd hnone (Nat.succ_ne_zero _)

end Game

open Game

/-! ### Going on -/

namespace Session

variable {s t u : Session} {known : Prop}

/-- Going on is about the logs, the snapshots and the position only. -/
theorem Continues.congr {n : Nat} (h : s.Continues t n) (hhistory : u.history = t.history)
    (hsnapshots : u.snapshots = t.snapshots) (hcurrent : u.current = t.current) :
    s.Continues u n where
  history := hhistory ▸ h.history
  snapshots := hsnapshots ▸ h.snapshots
  current_eq := hcurrent.trans h.current_eq
  isAtTip := by
    rw [isAtTip_iff, hsnapshots, hcurrent]
    exact isAtTip_iff.mp h.isAtTip

/-- An action that is not refused goes on by one. -/
theorem Continues.acted {g : Game} {a : String × String} {n : Nat} (h : s.Continues g.session n)
    (hc : g.session.Consistent) (hforward : g.Forward known a)
    (hok : (g.checkVerb a.1 a.2).isOk) : s.Continues (g.acted a).session (n + 1) := by
  cases hcheck : g.checkVerb a.1 a.2 with
  | error e =>
    rw [hcheck] at hok
    cases hok
  | ok _ =>
    obtain ⟨name, values, assets, hrun⟩ := g.session_actRun .silent a.1 a.2 () hforward.jumps_eq
    rw [trim, if_pos h.isAtTip] at hrun
    have hpending : (g.actRun .silent a.1 a.2 ()).2.session.pending.isSome := by
      rw [hrun]
      rfl
    obtain ⟨bookmarks, hrecord⟩ := exists_record_of_pending hpending
      (g.actRun .silent a.1 a.2 ()).2.bookmark
    rw [session_acted_of_ok hcheck, actSession, hrecord, hrun]
    have hconsistent : { g.session.setAction a.1 a.2 with name, values, assets }.Consistent :=
      hc.congr rfl rfl hc.current_lt rfl
    have hgone : s.Continues { g.session.setAction a.1 a.2 with name, values, assets } n :=
      h.congr rfl rfl rfl
    exact (hgone.createSnapshot hconsistent).congr rfl rfl rfl

/-- Some actions go on by as many as are not refused. -/
theorem Continues.performed {g : Game} {acts : List (String × String)} {n : Nat}
    (h : s.Continues g.session n) (hc : g.session.Consistent)
    (hforward : g.Throughout (Forward known) acts) :
    (g.performed acts).session.Consistent ∧
      s.Continues (g.performed acts).session (n + g.taken acts) := by
  induction acts generalizing g n with
  | nil => exact ⟨hc, h⟩
  | cons a acts ih =>
    obtain ⟨hfirst, hrest⟩ := hforward
    have hconsistent : (g.acted a).session.Consistent :=
      hc.after .silent Book.load_silent () (.act a.1 a.2)
    have htaken : (g.acted a).taken acts = g.taken acts := rfl
    rw [taken_cons, ← htaken]
    cases hcheck : g.checkVerb a.1 a.2 with
    | error e =>
      have hstep : s.Continues (g.acted a).session n := by rwa [acted_of_error hcheck]
      exact ih hstep hconsistent hrest
    | ok _ =>
      have hstep := h.acted hc hfirst (by rw [hcheck]; rfl)
      obtain ⟨hc', hmore⟩ := ih hstep hconsistent hrest
      refine ⟨hc', ?_⟩
      rwa [Nat.add_assoc, Nat.add_comm 1] at hmore

end Session

/-! ### What is said -/

/-- The problems that a reading shows behind its text. -/
def Config.shown (c : Config) (diagnostics : List Diagnostic) : String :=
  String.join (if c.echo then diagnostics.map fun d => s!"\n[{d.display}]" else [])

theorem Game.text_reading (g : Game) (s : Stage Unit) (ran : Bool) :
    (g.reading s ran).text = s.output ++ g.config.shown s.diagnostics :=
  rfl

/-- What a player is told. -/
def Reading.told (r : Reading) : String × Bool :=
  (r.text, r.ran)

/-- The same refusal, or the same text with the same outcome, but for the problems that are shown
behind the text. -/
inductive Config.SameSaying (c : Config) :
    Except GameError Reading → Except GameError Reading → Prop where
  | refused (e : GameError) : SameSaying c (.error e) (.error e)
  | said {r r' : Reading} {text : String} (hran : r.ran = r'.ran)
      (htext : r.text = text ++ c.shown r.diagnostics)
      (htext' : r'.text = text ++ c.shown r'.diagnostics) : SameSaying c (.ok r) (.ok r')

/-- If problems are not shown, players are told the same. -/
theorem Config.SameSaying.told_eq {c : Config} {r r' : Except GameError Reading}
    (h : c.SameSaying r r') (hecho : c.echo = false) : r.map (·.told) = r'.map (·.told) := by
  have hnone : ∀ diagnostics, c.shown diagnostics = "" := by
    intro diagnostics
    rw [Config.shown, hecho]
    rfl
  cases h with
  | refused e => rfl
  | said hran htext htext' =>
    rw [hnone] at htext htext'
    exact congrArg Except.ok (Prod.ext (htext.trans htext'.symm) hran)

/-! ### Twins -/

namespace Session

variable {s t u : Session} {known : Prop} {gives : String → Value}

/-- Sessions that are alike, and have the same past once what was undone is discarded. -/
structure Twins (known : Prop) (gives : String → Value) (s t : Session) : Prop where
  left : s.Consistent
  right : t.Consistent
  alike : s.Alike known gives t
  past : s.trim.SamePast t.trim

theorem twins_refl (hc : s.Consistent) : s.Twins known gives s :=
  ⟨hc, hc, .refl s, .refl _⟩

/-- Taking up an action, after what was undone is discarded. -/
theorem Alike.setAction_trim (h : s.Alike known gives t) (noun verb : String) :
    (s.trim.setAction noun verb).Alike known gives (t.trim.setAction noun verb) := by
  have hlive : ∀ s : Session, s.trim.name = s.name ∧ s.trim.values = s.values ∧
      s.trim.assets = s.assets := by
    intro s
    rw [trim]
    split <;> exact ⟨rfl, rfl, rfl⟩
  have hvalue : ∀ (s : Session) (name : String),
      (s.trim.setAction noun verb).value? name = s.value? name := fun s _ =>
    congrArg (SortedMap.get? · _) (hlive s).2.1
  refine ⟨fun hknown => ?_, fun name => ?_, ?_⟩
  · show s.trim.name = t.trim.name
    rw [(hlive s).1, (hlive t).1, h.name_eq hknown]
  · rw [ownValue, ownValue, hvalue, hvalue]
    exact h.ownValue_eq name
  · show s.trim.assets = t.trim.assets
    rw [(hlive s).2.2, (hlive t).2.2, h.assets_eq]

theorem SamePast.congr {s' t' : Session} (h : s.SamePast t)
    (hs : s'.history = s.history ∧ s'.snapshots = s.snapshots ∧ s'.current = s.current)
    (ht : t'.history = t.history ∧ t'.snapshots = t.snapshots ∧ t'.current = t.current) :
    s'.SamePast t' where
  history := by rw [hs.1, ht.1]; exact h.history
  snapshots_eq := by rw [hs.2.1, ht.2.1]; exact h.snapshots_eq
  current_eq := by rw [hs.2.2, ht.2.2]; exact h.current_eq

/-- Twins on which the same action has run are recorded as twins, with nothing left to discard. -/
theorem Twins.record {u w : Session} {noun verb : String} (h : Twins known gives s t)
    (hu : ∃ name values assets, u = { s.trim.setAction noun verb with name, values, assets })
    (hw : ∃ name values assets, w = { t.trim.setAction noun verb with name, values, assets })
    (hlike : u.Alike known gives w) (bookmark bookmark' : Option (Option String)) :
    Twins known gives (Game.record u bookmark) (Game.record w bookmark') ∧
      (Game.record w bookmark').isAtTip := by
  obtain ⟨name, values, assets, hu⟩ := hu
  obtain ⟨name', values', assets', hw⟩ := hw
  -- both runs have left the logs alone, which were cut to the same past
  have hcu : u.Consistent := by
    rw [hu]
    exact h.left.trim.congr rfl rfl h.left.trim.current_lt rfl
  have hcw : w.Consistent := by
    rw [hw]
    exact h.right.trim.congr rfl rfl h.right.trim.current_lt rfl
  have htip : u.isAtTip := by
    rw [hu]
    exact h.left.isAtTip_trim
  have hpast : u.SamePast w := by
    rw [hu, hw]
    exact h.past.congr ⟨rfl, rfl, rfl⟩ ⟨rfl, rfl, rfl⟩
  have hpending : u.pending.isSome ∧ u.pending = w.pending := by
    rw [hu, hw]
    exact ⟨rfl, rfl⟩
  obtain ⟨hcreated, hlike⟩ := hpast.createSnapshot hcu hcw htip hlike hpending.2
  obtain ⟨bookmarks, hrecord⟩ := exists_record_of_pending hpending.1 bookmark
  obtain ⟨bookmarks', hrecord'⟩ := exists_record_of_pending (hpending.2 ▸ hpending.1) bookmark'
  have htips : (Game.record u bookmark).isAtTip ∧ (Game.record w bookmark').isAtTip := by
    rw [hrecord, hrecord']
    exact ⟨isAtTip_createSnapshot htip, isAtTip_createSnapshot (hpast.isAtTip_iff.mp htip)⟩
  refine ⟨⟨hcu.record bookmark, hcw.record bookmark', ?_, ?_⟩, htips.2⟩
  · rw [hrecord, hrecord']
    exact ⟨hlike.name_eq, hlike.ownValue_eq, hlike.assets_eq⟩
  · rw [trim, if_pos htips.1, trim, if_pos htips.2, hrecord, hrecord']
    exact hcreated.congr ⟨rfl, rfl, rfl⟩ ⟨rfl, rfl, rfl⟩

/-- The same action on sessions that are alike runs in lockstep. -/
theorem Alike.actRun {g : Game} (h : g.session.Alike known (g.setting .silent).defaultOf t)
    {a : String × String} (hforward : g.Forward known a) :
    (g.actRun .silent a.1 a.2 ()).1 = ((g.withSession t).actRun .silent a.1 a.2 ()).1 ∧
      (g.withSession t).Forward known a ∧
      (g.actRun .silent a.1 a.2 ()).2.Alike known (g.setting .silent).defaultOf
        ((g.withSession t).actRun .silent a.1 a.2 ()).2 := by
  have hstart : (g.actStage a.1 a.2 ()).Alike known (g.setting .silent).defaultOf
      ((g.withSession t).actStage a.1 a.2 ()) :=
    ⟨h.setAction_trim a.1 a.2, rfl⟩
  obtain ⟨hran, hdeeds, hrun⟩ := Scripted.lockstep rfl
    (g.scripted_runVerb .silent Value.lasting_true a.1 a.2) hstart hforward
  exact ⟨hran, fun d hd => hforward d (Eq.mpr (congrArg (d ∈ ·) hdeeds) hd), hrun⟩

/-- Twins say the same in an action, and are twins after it; if the action is not refused, nothing
is left to discard. -/
theorem Twins.acted {g : Game} (h : Twins known (g.setting .silent).defaultOf g.session t)
    {a : String × String} (hforward : g.Forward known a) :
    g.config.SameSaying ((g.act .silent a.1 a.2 ()).map (·.1))
        (((g.withSession t).act .silent a.1 a.2 ()).map (·.1)) ∧
      Twins known (g.setting .silent).defaultOf (g.acted a).session
        ((g.withSession t).acted a).session ∧
      ((g.checkVerb a.1 a.2).isOk → ((g.withSession t).acted a).session.isAtTip) := by
  have hcheck' : (g.withSession t).checkVerb a.1 a.2 = g.checkVerb a.1 a.2 := rfl
  rw [Game.act_eq, Game.act_eq, hcheck']
  cases hcheck : g.checkVerb a.1 a.2 with
  | error e =>
    rw [acted_of_error hcheck, acted_of_error (hcheck'.trans hcheck)]
    exact ⟨.refused e, h, fun hok => by cases hok⟩
  | ok _ =>
    obtain ⟨hran, hforward', hrun⟩ := h.alike.actRun hforward
    have htext := (g.withSession t).text_reading ((g.withSession t).actRun .silent a.1 a.2 ()).2
      ((g.withSession t).actRun .silent a.1 a.2 ()).1
    rw [← hrun.output_eq] at htext
    rw [session_acted_of_ok hcheck, session_acted_of_ok (hcheck'.trans hcheck)]
    obtain ⟨htwins, htip⟩ := h.record (g.session_actRun .silent a.1 a.2 () hforward.jumps_eq)
      ((g.withSession t).session_actRun .silent a.1 a.2 () hforward'.jumps_eq) hrun.session
      (g.actRun .silent a.1 a.2 ()).2.bookmark
      ((g.withSession t).actRun .silent a.1 a.2 ()).2.bookmark
    exact ⟨.said hran (g.text_reading _ _) htext, htwins, fun _ => htip⟩

/-- Twins say the same in some actions, and stay twins; as soon as one of the actions was not
refused there is nothing left to discard. -/
theorem Twins.performed {g : Game} (h : Twins known (g.setting .silent).defaultOf g.session t)
    {acts : List (String × String)} (hforward : g.Throughout (Forward known) acts) :
    List.Forall₂ g.config.SameSaying (g.sayings acts) ((g.withSession t).sayings acts) ∧
      Twins known (g.setting .silent).defaultOf (g.performed acts).session
        ((g.withSession t).performed acts).session ∧
      (0 < g.taken acts ∨ t.isAtTip →
        ((g.withSession t).performed acts).session.isAtTip) := by
  induction acts generalizing g t with
  | nil => exact ⟨.nil, h, fun htip => htip.resolve_left (Nat.lt_irrefl 0)⟩
  | cons a acts ih =>
    obtain ⟨hfirst, hrest⟩ := hforward
    obtain ⟨hsaying, htwins, htip⟩ := h.acted hfirst
    obtain ⟨hsayings, hmore, htips⟩ := ih (g := g.acted a) htwins hrest
    refine ⟨.cons hsaying hsayings, hmore, fun hor => htips ?_⟩
    have htaken : (g.acted a).taken acts = g.taken acts := rfl
    rw [htaken]
    rw [taken_cons] at hor
    -- an action that is refused discards nothing, and any other one all there is to discard
    cases hcheck : g.checkVerb a.1 a.2 with
    | error e =>
      have hcheck' : (g.withSession t).checkVerb a.1 a.2 = .error e := hcheck
      rw [acted_of_error hcheck']
      rwa [hcheck] at hor
    | ok _ => exact .inr (htip (by rw [hcheck]; rfl))

/-! ### Branches -/

/-- Stepping back over a branch leads to a twin of the session in which the branch began. -/
theorem Settled.twins_undone {g : Game} (hstory : g.story.Sound) (hc : g.session.Consistent)
    (hsettled : g.session.Settled (g.story.given hstory)) (htip : g.session.isAtTip)
    {branch : List (String × String)} (hforward : g.Throughout (Forward known) branch) :
    Twins ((g.performed branch).session.name = g.session.name) (g.setting .silent).defaultOf
      g.session ((g.performed branch).session.undone (g.taken branch)) := by
  rcases Nat.eq_zero_or_pos (g.taken branch) with hnone | hpos
  · rw [hnone, performed_of_taken_eq_zero hnone]
    exact twins_refl hc
  · obtain ⟨hconsistent, hcontinues⟩ := (continues_refl htip).performed hc hforward
    rw [Nat.zero_add] at hcontinues
    obtain ⟨hback, hlike, hpast⟩ :=
      hcontinues.undone hc htip hsettled hconsistent Eq.symm hpos
    refine ⟨hc, hback, hlike, ?_⟩
    rwa [trim, if_pos htip]

end Session

/-- From the start of the story, actions that ask nothing about the past lead to a settled session
at the end of its logs. -/
theorem Game.settled_performed {g : Game} (hstory : g.story.Sound)
    (hfresh : g.session = { name := g.session.name }) {acts : List (String × String)}
    (hacts : g.Throughout (Forward True) acts) (htrimmed : g.Throughout WritesTrimmed acts) :
    ∃ hsound : (g.performed acts).story.Sound, (g.performed acts).session.Consistent ∧
      (g.performed acts).session.Settled ((g.performed acts).story.given hsound) ∧
        (g.performed acts).session.isAtTip := by
  have hstart : g.session.Consistent ∧ g.session.isAtTip ∧ Session.Played g.story g.session := by
    rw [hfresh]
    exact ⟨Session.consistent_new _, rfl, .start _⟩
  have hplayed : Session.Played g.story (g.performed acts).session :=
    hstart.2.2.performed (hacts.combine htrimmed fun _ _ hforward htrimmed =>
      ⟨quietAtEnd_of_stay hforward.jumps_eq, htrimmed⟩)
  rw [← g.story_performed acts] at hplayed hstory
  obtain ⟨hc, hsettled, -⟩ := hplayed.settled hstory
  have hcontinues := (Session.continues_refl hstart.2.1).performed hstart.1 hacts
  exact ⟨hstory, hc, hsettled, hcontinues.2.isAtTip⟩

/-- A branch leaves no trace. Of two players who did the same at first, one acts, steps back over
these actions one by one, and goes on as the other. From then on the same is said, the same is seen,
and the same is in the logs, as soon as an action has taken the place of the branch. What is written
in front of the branch must be there to be read back; and but for the name of the session, the
actions may not ask about the past. -/
theorem Game.performed_undone {g : Game} (hstory : g.story.Sound)
    (hfresh : g.session = { name := g.session.name }) {acts branch more : List (String × String)}
    (hacts : g.Throughout (Forward True) acts) (htrimmed : g.Throughout WritesTrimmed acts)
    (hbranch : (g.performed acts).Throughout (Forward True) branch)
    (hmore : (g.performed acts).Throughout (Forward
      (((g.performed acts).performed branch).session.name = (g.performed acts).session.name))
        more) :
    let s := g.performed acts
    let t := (s.performed branch).undone (s.taken branch)
    List.Forall₂ s.config.SameSaying (s.sayings more) (t.sayings more) ∧
    (s.config.echo = false →
      (s.sayings more).map (·.map (·.told)) = (t.sayings more).map (·.map (·.told))) ∧
    (∀ noun, ((s.performed more).value? noun).getD .empty =
      ((t.performed more).value? noun).getD .empty) ∧
    (s.performed more).session.activeAssets = (t.performed more).session.activeAssets ∧
    (s.performed more).session.SamePast (t.performed more).session.trim ∧
    (0 < s.taken more → (s.performed more).session.SamePast (t.performed more).session) := by
  intro s t
  obtain ⟨hsound, hc, hsettled, htip⟩ := Game.settled_performed hstory hfresh hacts htrimmed
  have ht : t = s.withSession ((s.performed branch).session.undone (s.taken branch)) :=
    s.performed_undone_eq branch _
  -- at the fork the two sessions are twins, and each further action keeps them twins
  obtain ⟨hsayings, htwins, hdiscarded⟩ :=
    (hsettled.twins_undone hsound hc htip hbranch).performed hmore
  rw [← ht] at hsayings htwins hdiscarded
  have htip' : (s.performed more).session.isAtTip :=
    ((Session.continues_refl htip).performed hc hmore).2.isAtTip
  have hpast : (s.performed more).session.SamePast (t.performed more).session.trim := by
    have htrim := htwins.past
    rwa [Session.trim, if_pos htip'] at htrim
  refine ⟨hsayings, fun hecho => ?_, fun noun => ?_,
    congrArg SortedMap.keys htwins.alike.assets_eq, hpast, fun htaken => ?_⟩
  · have htold := hsayings.imp fun _ _ h => h.told_eq hecho
    rw [← List.forall₂_eq_eq_eq, List.forall₂_map_left_iff, List.forall₂_map_right_iff]
    exact htold
  · have hshown : ∀ {u : Game}, u.story = s.story → (u.value? noun).getD .empty =
        u.session.ownValue noun ((s.setting .silent).defaultOf noun) := by
      rintro ⟨_, session, config⟩ rfl
      exact Game.value?_eq_ownValue (g := ⟨s.story, session, config⟩) hsound noun
    have hstory' : (t.performed more).story = s.story := by
      rw [t.story_performed, ht]
      rfl
    rw [hshown (s.story_performed more), hshown hstory']
    exact htwins.alike.ownValue_eq noun
  · rwa [Session.trim, if_pos (hdiscarded (.inl htaken))] at hpast

/-- A lamp that can be lit, painted and looked at. -/
def Game.paintedLamp : Game where
  story := (Story.load "[lamp][:light]!lamp=lit[:paint]!lamp+=red[:look]!Print(@lamp)").story

/-- After painting the lamp and stepping back, it looks as it did. -/
theorem Game.performed_undone_paintedLamp :
    let s := Game.paintedLamp.performed [("lamp", "light")]
    let t := (s.performed [("lamp", "paint"), ("lamp", "look")]).undone
      (s.taken [("lamp", "paint"), ("lamp", "look")])
    t.session.history.queue = ["lamp:light", "lamp:paint", "lamp:look"] ∧
      (t.sayings [("lamp", "look")]).map (·.map (·.told)) = [.ok ("lit", true)] ∧
      (t.performed [("lamp", "look")]).session.history.queue = ["lamp:light", "lamp:look"] := by
  intro s t
  have hforward : Game.paintedLamp.Throughout (Forward True) [("lamp", "light")] ∧
      Game.paintedLamp.Throughout WritesTrimmed [("lamp", "light")] ∧
      s.Throughout (Forward True) [("lamp", "paint"), ("lamp", "look")] ∧
      s.Throughout (Forward ((s.performed [("lamp", "paint"), ("lamp", "look")]).session.name =
        s.session.name)) [("lamp", "look")] := by
    decide +kernel
  obtain ⟨-, htold, -, -, -, hpast⟩ := Game.performed_undone (g := Game.paintedLamp)
    (Story.sound_load _) rfl hforward.1 hforward.2.1 hforward.2.2.1 hforward.2.2.2
  have hruns : t.session.history.queue = ["lamp:light", "lamp:paint", "lamp:look"] ∧
      0 < s.taken [("lamp", "look")] ∧
      (s.sayings [("lamp", "look")]).map (·.map (·.told)) = [.ok ("lit", true)] ∧
      (s.performed [("lamp", "look")]).session.history.queue = ["lamp:light", "lamp:look"] := by
    decide +kernel
  exact ⟨hruns.1, (htold rfl).symm.trans hruns.2.2.1,
    (hpast hruns.2.1).history.queue_eq.symm.trans hruns.2.2.2⟩

/-- A verb that gives the session a name and one that says it, and one that touches a noun without
a page and one that looks at it. -/
def Game.fork (echo : Bool) : Game where
  story := (Story.load ("[x][:go]!BranchSession(second)[:show]!Print(GetSessionName())" ++
    "[:touch]!ghost-=a[:see]!Print(@ghost)")).story
  config := { echo }

/-- The name of the session stays, the branch is there to be stepped forward to until another action
takes its place, and a noun without a page that was touched is unknown again after stepping back. -/
theorem Game.performed_undone_fork :
    (let s := Game.fork false
    let t := (s.performed [("x", "go")]).undone (s.taken [("x", "go")])
    s.Throughout (Forward True) [("x", "go")] ∧ s.Throughout (Forward True) [("x", "show")] ∧
      (s.sayings [("x", "show")]).map (·.map (·.told)) = [.ok ("untitled", true)] ∧
      (t.sayings [("x", "show")]).map (·.map (·.told)) = [.ok ("second", true)] ∧
      s.session.history.queue = [] ∧ t.session.history.queue = ["x:go"]) ∧
    (let s := (Game.fork true).performed [("x", "touch")]
    let t := (s.performed [("x", "touch")]).undone (s.taken [("x", "touch")])
    s.Throughout (Forward True) [("x", "touch")] ∧ s.Throughout (Forward True) [("x", "see")] ∧
      s.value? "ghost" = some .empty ∧ t.value? "ghost" = none ∧
      (s.sayings [("x", "see")]).map (·.map (·.told)) = [.ok ("", true)] ∧
      (t.sayings [("x", "see")]).map (·.map (·.told)) =
        [.ok ("\n[error: page not found: [ghost]]", true)]) := by
  decide +kernel

end Gamebook
