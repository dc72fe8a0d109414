import Gamebook.Game
import Gamebook.Proofs.Play.Bookless
import Gamebook.Proofs.Play.Offer
import Gamebook.Proofs.Story.Defaults

/-!
# Asking which verbs are on offer

The guards of a page are evaluated one after the other on the same stage, by the evaluator that also
carries out instructions. In a loaded story they consist of conditions only
(`Story.guardsAsk_load`). As long as nothing is called in them, they only look, and they need
neither a book nor a way to run verbs. So asking for the verbs of a noun leaves everything as it is,
and it does not matter that the guards are evaluated one after the other
(`Game.verbs_observes`).
-/

namespace Gamebook

open Script

variable {σ : Type}

/-! ### Guards of loaded stories -/

/-- The guards of a page are blank or made of conditions. -/
def Page.GuardsAsk (p : Page) : Prop :=
  ∀ v ∈ p.verbs, ∀ b, p.block? v.root = some b →
    Text.isBlank b.expression.toList = true ∨ StoredCondition b.expression.toList

/-- Nothing is called in the guards of a page. -/
def Page.GuardsCallFree (p : Page) : Prop :=
  ∀ v ∈ p.verbs, ∀ b ∈ p.block? v.root, CallFree b.expression

instance (p : Page) : Decidable p.GuardsCallFree :=
  inferInstanceAs (Decidable (∀ v ∈ p.verbs, ∀ b ∈ p.block? v.root, CallFree b.expression))

theorem looks_of_callFree {script : String}
    (h : Text.isBlank script.toList = true ∨ StoredCondition script.toList)
    (hfree : CallFree script) : Looks script := by
  refine h.imp_right fun hstored part hpart => ⟨?_, hfree part hpart⟩
  rw [(ofText_segments hstored.opens).1] at hpart
  exact hstored.asks .and part hpart

/-- The guards of the verbs that a body declares are made of conditions. -/
theorem Page.guardsAsk_ofBody {page : Page} (hpage : page.verbs = []) (body : String)
    (origin : Span) : (page.ofBody body origin).1.GuardsAsk := by
  intro v hv b hb
  have hnew : v ∉ page.verbs := by
    rw [hpage]
    exact List.not_mem_nil
  obtain ⟨conditions, -, ⟨b', hb', hguard⟩, hstored⟩ := Page.guards_ofBody hv hnew
  obtain rfl : b' = b := Option.some.inj (hb'.symm.trans hb)
  rw [hguard]
  cases conditions with
  | nil => exact .inl rfl
  | cons t rest => exact .inr (storedCondition_foldChains hstored)

theorem Story.guardsAsk_load {source noun : String} {p : Page}
    (hp : (Story.load source).story.page? noun = some p) : p.GuardsAsk := by
  obtain ⟨-, text, h, origin, -, rfl⟩ := defines_load source p (List.mem_of_find?_eq_some hp)
  exact Page.guardsAsk_ofBody rfl _ _

/-! ### Listing -/

section Listing

variable (g : Setting σ) (c : Book σ) (verb verb' : String → String → Run σ Bool) {p : Page}

theorem onlyLooks_verbAvailable {root : Nat}
    (h : ∀ b, p.block? root = some b → Looks b.expression) :
    OnlyLooks (verbAvailable g verb p root) := by
  rw [verbAvailable]
  cases hb : p.block? root with
  | none => exact .pure false
  | some b => exact .bind (onlyLooks_evalScript g verb p.name (h b hb)) fun _ => .pure _

/-- Whether a verb is on offer depends on the story and the session alone. -/
theorem offered_iff_inBook {root : Nat} (h : ∀ b, p.block? root = some b → Looks b.expression)
    {s t : Stage σ} (hst : s.session = t.session) :
    Offered (g.inBook c) verb' p t root ↔ Offered g verb p s root := by
  have hsame : verbAvailable (g.inBook c) verb' p root = verbAvailable g verb p root := by
    rw [verbAvailable, verbAvailable]
    cases hb : p.block? root with
    | none => rfl
    | some b =>
      dsimp only
      rw [evalScript_inBook g c verb verb' p.name (h b hb)]
  rw [Offered, hsame, Offered, (onlyLooks_verbAvailable g verb h).answer_eq hst]

end Listing

namespace Game

variable (g : Game) (book : Book σ) {p : Page}

/-- Verbs whose guards only look are listed in their order, if they are on offer by themselves; and
listing them only looks. -/
theorem run_availableVerbs {verbs : List Verb}
    (h : ∀ v ∈ verbs, ∀ b, p.block? v.root = some b → Looks b.expression) (s : Stage σ) :
    OnlyLooks (g.availableVerbs book p verbs) ∧ ∀ t : Stage σ, t.session = s.session →
      ((g.availableVerbs book p verbs).run t).1 =
        (verbs.filter fun v => Offered (g.setting book) (g.runVerb book) p s v.root).map
          (·.visualName) := by
  induction verbs with
  | nil => exact ⟨.pure [], fun _ _ => rfl⟩
  | cons v rest ih =>
    obtain ⟨hrest, hnames⟩ := ih fun v hv => h v (List.mem_cons_of_mem _ hv)
    have hfirst := onlyLooks_verbAvailable (g.setting book) (g.runVerb book)
      (h v List.mem_cons_self)
    refine ⟨.bind hfirst fun _ => .bind hrest fun _ => .pure _, fun t ht => ?_⟩
    -- the first guard leaves the session as it is for the others
    have hmore := hnames _ ((hfirst.session_eq t).trans ht)
    rw [availableVerbs, Run.run_bind, Run.run_bind, hmore, hfirst.answer_eq ht]
    have hoffered : decide (Offered (g.setting book) (g.runVerb book) p s v.root) =
        ((verbAvailable (g.setting book) (g.runVerb book) p v.root).run s).1 :=
      Bool.decide_eq_true
    rw [List.filter_cons, hoffered]
    cases ((verbAvailable (g.setting book) (g.runVerb book) p v.root).run s).1 <;> rfl

/-- Asking a page whose guards ask, and call nothing, which verbs are on offer. -/
theorem verbs_of_looks {noun : String} (hp : g.story.page? noun = some p)
    (h : ∀ v ∈ p.verbs, ∀ b, p.block? v.root = some b → Looks b.expression) (host : σ) :
    g.verbs book noun host = .ok
      ((p.verbs.filter fun v =>
          Offered (g.setting book) (g.runVerb book) p (g.stage host) v.root).map (·.visualName),
        g, host) := by
  obtain ⟨hlooks, hnames⟩ := g.run_availableVerbs book h (g.stage host)
  obtain ⟨names, reports, hrun⟩ := hlooks g.session
  have hstage := hrun (g.stage host) rfl
  have hanswer := hnames (g.stage host) rfl
  rw [hstage] at hanswer
  rw [verbs, page, hp]
  dsimp only [Except.map]
  rw [hstage]
  exact congrArg (fun names => (Except.ok (names, g, host) : Except GameError _)) hanswer

/-- Asking for the verbs of a noun is only looking. If nothing is called in the guards of its page,
then the game and the state of the book are left as they are; and the answer is made of those verbs,
in the order of their declarations, whose guards hold by themselves on this session, in whatever
book, and whatever running a verb would do. A noun without a page is refused. -/
theorem verbs_observes (source : String) (session : Session) (config : Config) (book : Book σ)
    (noun : String) (host : σ) :
    let g : Game := ⟨(Story.load source).story, session, config⟩
    (g.story.page? noun = none → g.verbs book noun host = .error (.pageNotFound noun)) ∧
    ∀ p, g.story.page? noun = some p → p.GuardsCallFree →
      ∀ (book' : Book σ) (verb : String → String → Run σ Bool) (host' : σ),
        g.verbs book noun host = .ok
          ((p.verbs.filter fun v =>
              Offered (g.setting book') verb p (g.stage host') v.root).map (·.visualName),
            g, host) := by
  intro g
  refine ⟨fun hp => ?_, fun p hp hfree book' verb host' => ?_⟩
  · rw [verbs, page, hp]
    rfl
  · have hasks : p.GuardsAsk := Story.guardsAsk_load hp
    have hlooks : ∀ v ∈ p.verbs, ∀ b, p.block? v.root = some b → Looks b.expression :=
      fun v hv b hb => looks_of_callFree (hasks v hv b hb) (hfree v hv b hb)
    have halone : ∀ v ∈ p.verbs,
        decide (Offered (g.setting book) (g.runVerb book) p (g.stage host) v.root) =
          decide (Offered (g.setting book') verb p (g.stage host') v.root) := fun v hv =>
      decide_eq_decide.mpr (offered_iff_inBook (g.setting book') book verb (g.runVerb book)
        (s := g.stage host') (hlooks v hv) rfl)
    rw [verbs_of_looks g book hp hlooks, List.filter_congr halone]

end Game

/-- A hall with two lamps, in which not everything can be done. -/
def hall : Game :=
  { story := (Story.load ("[hall=lit,#2][:look]\"A hall.\"?hall=lit\x7b[:read]\"A book.\"\x7d" ++
      "?#hall>#5\x7b[:count]\"Many.\"\x7d?hall<>dark\x7b[:leave]\"Bye.\"\x7d")).story }

/-- Three of the four verbs of the hall are on offer. -/
theorem Game.verbs_observes_hall : ∃ p, hall.story.page? "hall" = some p ∧ p.GuardsCallFree ∧
    p.verbs.map (·.visualName) = ["look", "read", "count", "leave"] ∧
    hall.verbs .silent "hall" () = .ok (["look", "read", "leave"], hall, ()) := by
  obtain ⟨hpage, hfacts⟩ : (hall.story.page? "hall").isSome ∧
      ∀ p ∈ hall.story.page? "hall", p.GuardsCallFree ∧
        p.verbs.map (·.visualName) = ["look", "read", "count", "leave"] ∧
        (p.verbs.filter fun v =>
          Offered (hall.setting .silent) noVerb p (hall.stage ()) v.root).map (·.visualName) =
            ["look", "read", "leave"] := by
    decide +kernel
  obtain ⟨p, hp⟩ := Option.isSome_iff_exists.mp hpage
  obtain ⟨hfree, hverbs, hnames⟩ := hfacts p hp
  have hlist := (Game.verbs_observes _ hall.session hall.config .silent "hall" ()).2 p hp hfree
    .silent noVerb ()
  exact ⟨p, hp, hfree, hverbs, hnames ▸ hlist⟩

end Gamebook
