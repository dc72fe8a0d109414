import Gamebook.Proofs.Play.Scripted
import Gamebook.Proofs.Session.Views

/-!
# What deeds do to a session

Whatever a run does to the session, it does by its deeds: `Effect` says what a single deed may do,
and `Leads` that some deeds lead from one session to another. Each run leads by its deeds from the
session it starts with to the one it leaves (`Scripted.leads`). What holds of all effects of the
deeds in question therefore holds of whole runs.
-/

namespace Gamebook

open Script

variable {σ α : Type}

/-- What a session knows of its values. -/
def Session.Holds (s : Session) (V : Value → Prop) : Prop :=
  ∀ noun v, s.value? noun = some v → V v

/-- What is known of all values that come from a story and from a book. -/
structure Setting.Gives (g : Setting σ) (V : Value → Prop) : Prop where
  defaults : ∀ noun, V (g.defaultOf noun)
  sessions : ∀ name host t host', g.book.load name host = (some t, host') → t.Holds V

/-- Nothing need be known of values. -/
theorem Setting.gives_true (g : Setting σ) : g.Gives fun _ => True :=
  ⟨fun _ => trivial, fun _ _ _ _ _ _ _ _ => trivial⟩

/-! ### Running parts -/

namespace Run

variable {β : Type}

theorem run_bind (m : Run σ α) (f : α → Run σ β) (s : Stage σ) :
    (m >>= f).run s = (f (m.run s).1).run (m.run s).2 :=
  rfl

theorem run_session (s : Stage σ) : (Run.session : Run σ Session).run s = (s.session, s) :=
  rfl

theorem run_call (f : σ → α × σ) (s : Stage σ) :
    (Run.call f).run s = ((f s.host).1, { s with host := (f s.host).2 }) :=
  rfl

end Run

/-! ### Single deeds -/

/-- Whether a deed takes a session to another position, or another session in its place. -/
def Deed.jumps : Deed → Bool
  | .change _ _ _ => false
  | .call f _ answer => match f with
    | .newSession => true
    | .loadSnapshot | .loadSession => answer == .ofBool true
    | _ => false

/-- What a deed may do to a session. -/
inductive Effect (g : Setting σ) (V : Value → Prop) (s : Session) : Deed → Session → Prop where
  | change (noun : String) (c : Change) {v : Value} (hv : V v) : Effect g V s (.change noun c v)
      (s.modifyValue noun (g.defaultOf noun) (·.change c v)).1
  /-- Most functions leave the session alone, and so do those that fail. -/
  | nothing {f : Function} {args answer : Operand}
      (hstay : (Deed.call f args answer).jumps = false) : Effect g V s (.call f args answer) s
  /-- Assets are switched on or off. -/
  | switch {f : Function} (hf : f = .play ∨ f = .stop) (args answer : Operand)
      (assets : SortedMap String Unit) : Effect g V s (.call f args answer) { s with assets }
  | rename (args answer : Operand) (name : String) :
      Effect g V s (.call .branchSession args answer) (s.rename name)
  /-- The book hands out another session. -/
  | load (args : Operand) {name : String} {host host' : σ} {t : Session}
      (ht : g.book.load name host = (some t, host')) :
      Effect g V s (.call .loadSession args (.ofBool true)) t
  | restart (args : Operand) (name : String) :
      Effect g V s (.call .newSession args (.ofBool true)) (Function.renameTo name s.reset)
  /-- A bookmark outside of an action is put at once. -/
  | bookmark {f : Function} (hf : f = .bookmark ∨ f = .userBookmark) (args answer : Operand)
      {description : Option String} {t : Session} {queue : Nat} (hpending : s.pending = none)
      (ht : s.addBookmark? description = some (t, queue)) : Effect g V s (.call f args answer) t
  | jump (args : Operand) {index : Nat} {t : Session} (ht : s.loadSnapshot? index = some t) :
      Effect g V s (.call .loadSnapshot args (.ofBool true)) t

variable {g : Setting σ} {V : Value → Prop}

/-- Switching assets changes nothing else of a session. -/
theorem Function.session_switchAssets (b : Book σ) (on : Bool) (names : List String)
    (s : Stage σ) : ∃ assets,
      ((switchAssets b on names).run s).2.session = { s.session with assets } := by
  induction names generalizing s with
  | nil => exact ⟨s.session.assets, rfl⟩
  | cons name names ih =>
    obtain ⟨assets, h⟩ := ih { s with
      session := s.session.setAsset name on
      host := if on then b.play name s.host else b.stop name s.host }
    refine ⟨assets, Eq.trans ?_ h⟩
    cases on <;> rfl

/-- A bookmark during an action is put on the stage, any other one at once. -/
theorem Function.effect_placeBookmark (description : Option String) {f : Function}
    (hf : f = .bookmark ∨ f = .userBookmark) (args : Operand) (s : Stage σ) :
    Effect g V s.session (.call f args ((placeBookmark description).run s).1)
      ((placeBookmark description).run s).2.session := by
  rw [placeBookmark, Run.run_bind, Run.run_session]
  dsimp only
  split
  · exact .nothing (by rcases hf with rfl | rfl <;> rfl)
  next hpending =>
    rw [Bool.not_eq_true, Option.isSome_eq_false_iff, Option.isNone_iff_eq_none] at hpending
    split
    next hadd => exact .bookmark hf args _ hpending hadd
    next => exact .nothing (by rcases hf with rfl | rfl <;> rfl)

/-- What the call of a function does to the session. -/
theorem Function.effect_call (noun : String) (f : Function) (args : Operand) (s : Stage σ) :
    Effect g V s.session (.call f args ((f.call g.book noun args).run s).1)
      ((f.call g.book noun args).run s).2.session := by
  cases f with
  | size | keyword | openMenu | closeMenu | closeBook | quit | getBooks | isInGame | getSessions
  | getSessionName | saveSession | openBook | getSnapshots | getBookmarks | getSnapshotIndex
  | dialog => exact .nothing rfl
  | play =>
    obtain ⟨assets, h⟩ := session_switchAssets g.book true args.value.atoms s
    have heffect : Effect g V s.session (.call .play args args) { s.session with assets } :=
      .switch (.inl rfl) args args assets
    rwa [← h] at heffect
  | stop =>
    obtain ⟨assets, h⟩ := session_switchAssets g.book false args.value.atoms s
    have heffect : Effect g V s.session (.call .stop args args) { s.session with assets } :=
      .switch (.inr rfl) args args assets
    rwa [← h] at heffect
  | print =>
    rw [Function.call]
    dsimp only
    split <;> exact .nothing rfl
  | selectValue =>
    rw [Function.call, Run.run_bind, Run.run_call]
    dsimp only
    split
    · exact .nothing rfl
    · split <;> exact .nothing rfl
  | input =>
    rw [Function.call, Run.run_bind, Run.run_call]
    dsimp only
    split <;> exact .nothing rfl
  | branchSession =>
    show Effect g V s.session (.call _ args _) (renameTo (args.value.atoms.headD "") s.session)
    rw [renameTo]
    split
    · exact .nothing rfl
    · exact .rename args _ _
  | loadSession =>
    rw [Function.call, Run.run_bind, Run.run_call]
    dsimp only
    split
    next t ht => exact .load args (Prod.ext ht rfl)
    next => exact .nothing rfl
  | newSession => exact .restart args _
  | bookmark => exact effect_placeBookmark none (.inl rfl) args s
  | userBookmark => exact effect_placeBookmark _ (.inr rfl) args s
  | loadSnapshot =>
    rw [Function.call, Run.run_bind, Run.run_session]
    dsimp only
    split
    next t ht =>
      split at ht
      · cases ht
      · exact .jump args ht
    next => exact .nothing rfl

/-- What is known of the value a function is called with is known of its answer. -/
theorem Function.holds_call (hV : Value.Lasting V) (noun : String) (f : Function) {args : Operand}
    (hargs : V args.value) (s : Stage σ) : V ((f.call g.book noun args).run s).1.value := by
  cases f with
  | size | openBook | isInGame | saveSession | branchSession | newSession | getSnapshotIndex
  | dialog => exact hV.of_nil rfl
  | play | stop | openMenu | closeMenu | closeBook | quit => exact hargs
  | print =>
    rw [Function.call]
    dsimp only
    split <;> exact hargs
  | keyword | getBooks | getSessions | getSessionName | getSnapshots | getBookmarks =>
    exact hV.ofAtoms _
  | selectValue =>
    rw [Function.call, Run.run_bind, Run.run_call]
    dsimp only
    split
    · exact hV.of_nil rfl
    · split
      · exact hV.ofAtoms _
      · exact hV.of_nil rfl
  | loadSession =>
    rw [Function.call, Run.run_bind, Run.run_call]
    dsimp only
    split <;> exact hV.of_nil rfl
  | loadSnapshot =>
    rw [Function.call, Run.run_bind, Run.run_session]
    dsimp only
    split <;> exact hV.of_nil rfl
  | bookmark | userBookmark =>
    rw [Function.call, placeBookmark, Run.run_bind, Run.run_session]
    dsimp only
    split
    · exact hV.of_nil rfl
    · split <;> exact hV.of_nil rfl
  | input =>
    rw [Function.call, Run.run_bind, Run.run_call]
    dsimp only
    split
    · exact hV.ofAtoms _
    · exact hV.of_nil rfl

theorem Session.Holds.modifyValue (hV : Value.Lasting V) {s : Session} (hs : s.Holds V)
    (noun : String) {default w : Value} (hdefault : V default) (c : Change) (hw : V w) :
    (s.modifyValue noun default (·.change c w)).1.Holds V := by
  have hown : V (s.ownValue noun default) := by
    rw [ownValue]
    cases hvalue : s.value? noun with
    | none => exact hV.congr hdefault rfl
    | some v => exact hs noun v hvalue
  intro name v hv
  have hget : (s.modifyValue noun default (·.change c w)).1.value? name =
      if noun = name then some ((s.ownValue noun default).change c w).1 else s.value? name :=
    SortedMap.get?_insert s.values noun name _
  rw [hget] at hv
  split at hv
  · rw [← Option.some.inj hv]
    exact hV.change hown hw c
  · exact hs name v hv

theorem Session.holds_restore (hV : Value.Lasting V) (s : Session) (index : Nat) :
    (s.restore index).Holds V := by
  have hvalues : (s.restore index).values =
      (SortedMap.ofList (s.history.valuesAt (s.snapshot index).changes)).mapValues
        Value.ofLiteral := SortedMap.ofList_map _ _
  intro noun v hv
  rw [value?, hvalues, SortedMap.get?_mapValues] at hv
  obtain ⟨literal, -, rfl⟩ := Option.map_eq_some_iff.mp hv
  exact hV.ofLiteral literal

/-- What is known of values is kept by each deed. -/
theorem Effect.holds (hV : Value.Lasting V) (hg : g.Gives V) {s t : Session} {deed : Deed}
    (he : Effect g V s deed t) (hs : s.Holds V) : t.Holds V := by
  cases he with
  | change noun c hv => exact hs.modifyValue hV noun (hg.defaults noun) c hv
  | nothing | switch | rename => exact hs
  | load args ht => exact hg.sessions _ _ _ _ ht
  | restart args name =>
    intro noun v hv
    rw [Function.renameTo] at hv
    split at hv <;> cases hv
  | bookmark hf args answer hpending ht =>
    obtain ⟨bookmarks, rfl⟩ := Session.eq_of_addBookmark? ht
    exact hs
  | jump args ht =>
    rw [Session.loadSnapshot?] at ht
    split at ht
    · cases ht
    · cases ht
      exact s.holds_restore hV _

/-! ### Staying -/

/-- During an action all deeds but jumps leave the logs, the snapshots, the position and the
bookmarks alone. -/
theorem Effect.stays {s t : Session} {deed : Deed} (he : Effect g V s deed t)
    (hpending : s.pending.isSome) (hstay : deed.jumps = false) :
    ∃ name values assets, t = { s with name, values, assets } := by
  cases he with
  | change noun c hv => exact ⟨s.name, _, s.assets, rfl⟩
  | nothing => exact ⟨s.name, s.values, s.assets, rfl⟩
  | switch hf args answer assets => exact ⟨s.name, s.values, assets, rfl⟩
  | rename args answer name => exact ⟨_, s.values, s.assets, rfl⟩
  | load | restart | jump => cases hstay
  | bookmark hf args answer hnone =>
    rw [hnone] at hpending
    cases hpending

/-! ### Rows of deeds -/

/-- Deeds that lead from one session to another. -/
inductive Leads (g : Setting σ) (V : Value → Prop) : Session → List Deed → Session → Prop where
  | nil (s : Session) : Leads g V s [] s
  | cons {s t u : Session} {deed : Deed} {deeds : List Deed} (he : Effect g V s deed t)
      (hrest : Leads g V t deeds u) : Leads g V s (deed :: deeds) u

namespace Leads

variable {s t u : Session} {ds es : List Deed}

theorem append (h : Leads g V s ds t) (h' : Leads g V t es u) : Leads g V s (ds ++ es) u := by
  induction h with
  | nil => exact h'
  | cons he _ ih => exact .cons he (ih h')

theorem single {deed : Deed} (he : Effect g V s deed t) : Leads g V s [deed] t :=
  .cons he (.nil t)

/-- Deeds that lead somewhere lead there through the session between any two of them. -/
theorem of_append (h : Leads g V s (ds ++ es) u) : ∃ t, Leads g V s ds t ∧ Leads g V t es u := by
  induction ds generalizing s with
  | nil => exact ⟨s, .nil s, h⟩
  | cons deed ds ih =>
    cases h with
    | cons he hrest =>
      obtain ⟨t, hds, hes⟩ := ih hrest
      exact ⟨t, .cons he hds, hes⟩

/-- What each deed keeps is kept by all of them. -/
theorem invariant {P : Session → Prop} (h : Leads g V s ds t)
    (hstep : ∀ {s t : Session} {deed : Deed}, deed ∈ ds → Effect g V s deed t → P s → P t)
    (hs : P s) : P t := by
  induction h with
  | nil => exact hs
  | cons he _ ih =>
    exact ih (fun hmem => hstep (List.mem_cons_of_mem _ hmem)) (hstep List.mem_cons_self he hs)

theorem holds (hV : Value.Lasting V) (hg : g.Gives V) (h : Leads g V s ds t) (hs : s.Holds V) :
    t.Holds V :=
  h.invariant (fun _ he => he.holds hV hg) hs

/-- An action that does not jump changes no more than the name, the values and the assets. -/
theorem stays (h : Leads g V s ds t) (hpending : s.pending.isSome)
    (hstay : ∀ d ∈ ds, d.jumps = false) :
    ∃ name values assets, t = { s with name, values, assets } := by
  induction h with
  | nil s => exact ⟨s.name, s.values, s.assets, rfl⟩
  | cons he _ ih =>
    obtain ⟨name, values, assets, rfl⟩ := he.stays hpending (hstay _ List.mem_cons_self)
    obtain ⟨name, values, assets, rfl⟩ :=
      ih hpending fun d hd => hstay d (List.mem_cons_of_mem _ hd)
    exact ⟨name, values, assets, rfl⟩

end Leads

/-! ### Runs -/

/-- The value of a noun is one that the session or the story knows of. -/
theorem Setting.holds_valueOf (hV : Value.Lasting V) (hg : g.Gives V) (noun : String)
    {s : Stage σ} (hs : s.session.Holds V) :
    V ((g.valueOf noun).run s).1 ∧ ((g.valueOf noun).run s).2.session = s.session := by
  rw [Setting.valueOf, Run.run_bind, Run.run_session]
  dsimp only
  cases hvalue : s.session.value? noun with
  | some v => exact ⟨hs noun v hvalue, rfl⟩
  | none =>
    have hdefault := hg.defaults noun
    rw [Setting.defaultOf] at hdefault
    rw [Story.lookup]
    cases hpage : g.story.page? noun with
    | some page =>
      rw [hpage] at hdefault
      exact ⟨hdefault, rfl⟩
    | none => exact ⟨hV.of_nil rfl, rfl⟩

/-- A run leads by its deeds to the session that it leaves. -/
theorem Scripted.leads (hV : Value.Lasting V) (hg : g.Gives V) {P : α → Prop} {m : Run σ α}
    {d : Deeds σ} (hm : Scripted g V P m d) {s : Stage σ} (hs : s.session.Holds V) :
    P (m.run s).1 ∧ Leads g V s.session (d s) (m.run s).2.session := by
  induction hm generalizing s with
  | pure h => exact ⟨h, .nil _⟩
  | bind _ _ ihm ihf =>
    obtain ⟨hP, hfirst⟩ := ihm hs
    obtain ⟨hQ, hrest⟩ := ihf _ hP (hfirst.holds hV hg hs)
    exact ⟨hQ, hfirst.append hrest⟩
  | report d => exact ⟨trivial, .nil _⟩
  | print text => exact ⟨trivial, .nil _⟩
  | look noun _ _ ih =>
    obtain ⟨hvalue, hsession⟩ := Setting.holds_valueOf hV hg noun hs
    rw [← hsession] at hs ⊢
    exact ih _ hvalue hs
  | change noun c hv => exact ⟨trivial, .single (.change noun c hv)⟩
  | call noun f hargs =>
    exact ⟨Function.holds_call hV noun f hargs s, .single (Function.effect_call noun f _ s)⟩

end Gamebook
