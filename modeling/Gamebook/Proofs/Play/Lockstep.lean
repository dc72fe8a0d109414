import Gamebook.Proofs.Play.Effects
import Gamebook.Proofs.Session.Branching

/-!
# Runs in lockstep

A run asks nothing about the past of a session, unless it calls a function that does. So two runs
of the same part of a story go in lockstep, in the book that does nothing, if their sessions are
alike (`Scripted.lockstep`): they give the same answers, do the same deeds and show the same text.
Only what is reported may differ: a noun without a page is unknown to a session that has no value of
its own for it.
-/

namespace Gamebook

open Script

variable {α : Type}

/-! ### Functions about the past -/

/-- Whether a function is about the history, or puts another session in the place of the one at
hand. -/
def Function.aboutPast : Function → Bool
  | .bookmark | .userBookmark | .loadSnapshot | .loadSession | .newSession | .getSnapshots
  | .getBookmarks | .getSnapshotIndex => true
  | _ => false

/-- Whether a deed is the call of such a function. -/
def Deed.aboutPast : Deed → Bool
  | .change _ _ _ => false
  | .call f _ _ => f.aboutPast

/-- Whether a deed asks for the name of the session. -/
def Deed.asksName : Deed → Bool
  | .change _ _ _ => false
  | .call f _ _ => f == .getSessionName

/-- A jump is about the past. -/
theorem Deed.jumps_of_not_aboutPast {d : Deed} (h : d.aboutPast = false) : d.jumps = false := by
  cases d with
  | change => rfl
  | call f args answer => cases f <;> first | rfl | cases h

/-! ### Likeness -/

/-- Two stages that show the same, of sessions that are alike. -/
structure Stage.Alike (known : Prop) (gives : String → Value) (s t : Stage Unit) : Prop where
  session : s.session.Alike known gives t.session
  output_eq : s.output = t.output

namespace Session

variable {known : Prop} {gives : String → Value} {s t : Session}

theorem ownValue_insert (s : Session) (target noun : String) (v default : Value) :
    ownValue { s with values := s.values.insert target v } noun default =
      if target = noun then v else s.ownValue noun default := by
  rw [ownValue, ownValue, value?, value?, SortedMap.get?_insert]
  split <;> rfl

/-- The same change of values that are the same. -/
theorem Alike.modifyValue (h : s.Alike known gives t) (target : String)
    (change : Value → Value × Bool) :
    (s.modifyValue target (gives target) change).1.Alike known gives
      (t.modifyValue target (gives target) change).1 := by
  refine ⟨h.name_eq, fun noun => ?_, h.assets_eq⟩
  have hleft := s.ownValue_insert target noun (change (s.ownValue target (gives target))).1
    (gives noun)
  have hright := t.ownValue_insert target noun (change (t.ownValue target (gives target))).1
    (gives noun)
  refine hleft.trans (Eq.trans ?_ hright.symm)
  rw [h.ownValue_eq target, h.ownValue_eq noun]

theorem Alike.rename (h : s.Alike known gives t) (name : String) :
    (Function.renameTo name s).Alike known gives (Function.renameTo name t) := by
  rw [Function.renameTo, Function.renameTo]
  split
  · exact h
  · exact ⟨fun _ => rfl, h.ownValue_eq, h.assets_eq⟩

theorem Alike.setAsset (h : s.Alike known gives t) (asset : String) (on : Bool) :
    (s.setAsset asset on).Alike known gives (t.setAsset asset on) := by
  refine ⟨h.name_eq, h.ownValue_eq, ?_⟩
  rw [Session.setAsset, Session.setAsset, h.assets_eq]

end Session

/-! ### Functions in lockstep -/

namespace Function

variable {known : Prop} {gives : String → Value} {s t : Stage Unit}

theorem alike_switchAssets (on : Bool) (names : List String) (h : s.Alike known gives t) :
    ((switchAssets .silent on names).run s).2.Alike known gives
      ((switchAssets .silent on names).run t).2 := by
  induction names generalizing s t with
  | nil => exact h
  | cons name names ih =>
    refine ih (s := { s with session := s.session.setAsset name on, host := () })
      (t := { t with session := t.session.setAsset name on, host := () }) ?_
    exact ⟨h.session.setAsset name on, h.output_eq⟩

/-- Calling a function that is not about the past. -/
theorem lockstep_call (noun : String) (f : Function) (args : Operand) (hf : f.aboutPast = false)
    (hname : (f == .getSessionName) = true → known) (h : s.Alike known gives t) :
    ((f.call .silent noun args).run s).1 = ((f.call .silent noun args).run t).1 ∧
      ((f.call .silent noun args).run s).2.Alike known gives
        ((f.call .silent noun args).run t).2 := by
  cases f with
  | bookmark | userBookmark | loadSnapshot | loadSession | newSession | getSnapshots
  | getBookmarks | getSnapshotIndex => cases hf
  | size | keyword | openMenu | closeMenu | closeBook | quit | getBooks | isInGame | getSessions
  | saveSession | openBook | dialog | input => exact ⟨rfl, h.session, h.output_eq⟩
  | play => exact ⟨rfl, alike_switchAssets true args.value.atoms h⟩
  | stop => exact ⟨rfl, alike_switchAssets false args.value.atoms h⟩
  | print =>
    rw [Function.call]
    dsimp only
    split
    · exact ⟨rfl, h⟩
    · refine ⟨rfl, h.session, ?_⟩
      show s.output ++ _ = t.output ++ _
      rw [h.output_eq]
  | selectValue =>
    have hhost : s.host = t.host := rfl
    rw [Function.call, Run.run_bind, Run.run_bind, Run.run_call, Run.run_call, hhost]
    cases (Book.silent.select args.value.atoms t.host).1 with
    | none => exact ⟨rfl, h.session, h.output_eq⟩
    | some i =>
      dsimp only
      cases args.value.atoms[i]? with
      | none => exact ⟨rfl, h.session, h.output_eq⟩
      | some choice => exact ⟨rfl, h.session, h.output_eq⟩
  | getSessionName =>
    refine ⟨?_, h⟩
    show Operand.ofAtoms [s.session.name] = .ofAtoms [t.session.name]
    rw [h.session.name_eq (hname rfl)]
  | branchSession => exact ⟨rfl, h.session.rename _, h.output_eq⟩

end Function

/-! ### Runs -/

/-- Looking at a noun gives its value, up to the mark. -/
theorem Setting.clearDirty_valueOf {σ : Type} (g : Setting σ) (noun : String) (s : Stage σ) :
    ((g.valueOf noun).run s).1.clearDirty =
        (s.session.ownValue noun (g.defaultOf noun)).clearDirty ∧
      ∃ diagnostics, ((g.valueOf noun).run s).2 = { s with diagnostics } := by
  rw [Setting.valueOf, Run.run_bind, Run.run_session, Session.ownValue, Setting.defaultOf]
  dsimp only
  cases s.session.value? noun with
  | some v => exact ⟨rfl, s.diagnostics, rfl⟩
  | none =>
    rw [Story.lookup]
    cases g.story.page? noun with
    | some page => exact ⟨rfl, s.diagnostics, rfl⟩
    | none => exact ⟨rfl, _, rfl⟩

/-- Runs of the same part, on stages that are alike, go in lockstep as long as nothing is about the
past, and nothing asks for a name that may be another one. -/
theorem Scripted.lockstep {known : Prop} {g : Setting Unit} (hbook : g.book = .silent)
    {P : α → Prop} {m : Run Unit α} {d : Deeds Unit} (hm : Scripted g (fun _ => True) P m d)
    {s t : Stage Unit}
    (h : s.Alike known g.defaultOf t)
    (hpast : ∀ x ∈ d s, x.aboutPast = false ∧ (x.asksName = true → known)) :
    (m.run s).1 = (m.run t).1 ∧ d s = d t ∧ (m.run s).2.Alike known g.defaultOf (m.run t).2 := by
  induction hm generalizing s t with
  | pure ha => exact ⟨rfl, rfl, h⟩
  | @bind _ _ P Q m f d e hm hf ihm ihf =>
    have hP := (hm.leads Value.lasting_true g.gives_true (s := s) fun _ _ _ => trivial).1
    obtain ⟨hanswer, hdeeds, hfirst⟩ :=
      ihm h fun x hx => hpast x (List.mem_append_left _ hx)
    obtain ⟨hanswer', hdeeds', hrest⟩ :=
      ihf _ hP hfirst fun x hx => hpast x (List.mem_append_right _ hx)
    rw [Run.run_bind, Run.run_bind, Deeds.andThen, Deeds.andThen, Deeds.after, Deeds.after,
      ← hanswer, ← hdeeds]
    exact ⟨hanswer', congrArg _ hdeeds', hrest⟩
  | report d => exact ⟨rfl, rfl, h.session, h.output_eq⟩
  | print text =>
    refine ⟨rfl, rfl, h.session, ?_⟩
    show s.output ++ text = t.output ++ text
    rw [h.output_eq]
  | @look _ Q f d noun hmark hf ih =>
    obtain ⟨hleft, before, hbefore⟩ := g.clearDirty_valueOf noun s
    obtain ⟨hright, behind, hbehind⟩ := g.clearDirty_valueOf noun t
    have hsame : f ((g.valueOf noun).run s).1 = f ((g.valueOf noun).run t).1 := by
      rw [← hmark, hleft, h.session.ownValue_eq, ← hright, hmark]
    rw [Deeds.after, hbefore] at hpast
    rw [Run.run_bind, Run.run_bind, Deeds.after, Deeds.after, hsame, hbefore, hbehind]
    exact ih _ trivial ⟨h.session, h.output_eq⟩ hpast
  | @change noun c v hv =>
    exact ⟨rfl, rfl, h.session.modifyValue noun (·.change c v), h.output_eq⟩
  | call noun f hargs =>
    rw [callDeeds, callDeeds]
    rw [hbook] at hpast ⊢
    obtain ⟨hf, hname⟩ := hpast _ (List.mem_singleton_self _)
    obtain ⟨hanswer, hrun⟩ := Function.lockstep_call noun f _ hf hname h
    rw [hanswer]
    exact ⟨rfl, rfl, hrun⟩

end Gamebook
