import Gamebook.Proofs.Game.Operations
import Gamebook.Proofs.Session.Trimming
import Gamebook.Proofs.Story.Defaults

/-!
# What is live

Between two calls a game shows the values and the assets of its session as they are, not as the
logs have them. All the same the two are equal: what is live is what going to the snapshot at hand
would restore (`Session.Played.live_eq_restored`), however the player acted and moved.

There are two exceptions. An atom that starts or ends with white space does not come back from its
literal; and a verb that jumps to another snapshot or session is not recorded, so that what it
touches behind the jump is live but in no log.

The session is in step with its logs throughout (`InSync.effect`): it is ahead of them in marked
values only. At the end of an action either a snapshot is taken, or the last jump has settled the
session and nothing was touched behind it.
-/

namespace Gamebook

open Script

variable {σ : Type}

/-! ### Changes and marks -/

/-- A value without a mark after a change is as it was before. -/
theorem Value.change_of_clean {v w : Value} (hw : w.Proper) {c : Change}
    (h : (v.change c w).1.dirty = false) : (v.change c w).1 = v := by
  cases c with
  | add =>
    have hmutate : (v.change .add w).1 =
        (v.mutate [.union w, .setInteger (Decimal.clamp (v.integer.toInt + w.integer.toInt))]).1 :=
      rfl
    rw [hmutate] at h ⊢
    exact mutate_of_clean h
  | remove =>
    have hmutate : (v.change .remove w).1 =
        (v.mutate [.diff w, .setInteger (Decimal.clamp (v.integer.toInt - w.integer.toInt))]).1 :=
      rfl
    rw [hmutate] at h ⊢
    exact mutate_of_clean h
  | assign => exact Mutation.apply_of_clean (m := .assign ⟨w, hw⟩) h

/-- The values that a sound story gives to the nouns. -/
def Story.given (s : Story) (hs : s.Sound) (noun : String) : ProperValue :=
  ⟨((s.page? noun).map (·.defaults)).getD .empty, by
    cases hp : s.page? noun with
    | none => exact Value.proper_of_nil rfl
    | some p => exact (hs.page? hp).1⟩

/-- What a game shows of a noun is the session's own value, or else the story's. -/
theorem Game.value?_eq_ownValue {g : Game} (hstory : g.story.Sound) (noun : String) :
    (g.value? noun).getD .empty = g.session.ownValue noun (g.story.given hstory noun).1 := by
  have hgiven : (g.story.given hstory noun).1.dirty = false := by
    rw [Story.given]
    dsimp only
    cases hp : g.story.page? noun with
    | none => rfl
    | some p => exact (hstory.page? hp).2
  rw [Session.ownValue, Game.value?]
  cases g.session.value? noun with
  | some v => rfl
  | none =>
    rw [Option.none_or, Option.getD_none, Value.clearDirty, ← hgiven]
    rfl

/-! ### Deeds -/

/-- Whether a deed may change what the player sees of nouns and assets. -/
def Deed.touches : Deed → Bool
  | .change _ _ _ => true
  | .call f _ _ => f == .play || f == .stop

/-- Nothing is touched behind the last jump. -/
def QuietAtEnd (deeds : List Deed) : Prop :=
  ∀ before d after, deeds = before ++ d :: after → d.jumps = true →
    (∀ e ∈ after, e.jumps = false) → ∀ e ∈ after, e.touches = false

theorem quietAtEnd_nil : QuietAtEnd [] := by
  intro before d after heq
  cases before <;> cases heq

theorem quietAtEnd_of_stay {deeds : List Deed} (hstay : ∀ d ∈ deeds, d.jumps = false) :
    QuietAtEnd deeds := by
  rintro before d after rfl hjump
  rw [hstay d (by simp)] at hjump
  cases hjump

theorem quietAtEnd_cons {d : Deed} {deeds : List Deed} : QuietAtEnd (d :: deeds) ↔
    (d.jumps = true → (∀ e ∈ deeds, e.jumps = false) → ∀ e ∈ deeds, e.touches = false) ∧
      QuietAtEnd deeds := by
  constructor
  · intro h
    refine ⟨fun hjump => h [] d deeds rfl hjump, fun before e after heq => ?_⟩
    exact h (d :: before) e after (by rw [heq, List.cons_append])
  · rintro ⟨hfirst, hrest⟩ before e after heq
    cases before with
    | nil =>
      cases heq
      exact hfirst
    | cons e' before =>
      cases heq
      exact hrest before e after rfl

instance decidableQuietAtEnd : (deeds : List Deed) → Decidable (QuietAtEnd deeds)
  | [] => .isTrue quietAtEnd_nil
  | _ :: deeds =>
    have := decidableQuietAtEnd deeds
    decidable_of_iff _ quietAtEnd_cons.symm

/-- Among deeds that jump there is a last one. -/
theorem exists_last_jump {deeds : List Deed} (h : ∃ d ∈ deeds, d.jumps = true) :
    ∃ before d after, deeds = before ++ d :: after ∧ d.jumps = true ∧
      ∀ e ∈ after, e.jumps = false := by
  induction deeds with
  | nil =>
    obtain ⟨d, hd, -⟩ := h
    cases hd
  | cons d deeds ih =>
    by_cases hlater : ∃ e ∈ deeds, e.jumps = true
    · obtain ⟨before, e, after, rfl, hjump, hstay⟩ := ih hlater
      exact ⟨d :: before, e, after, rfl, hjump, hstay⟩
    · have hstay : ∀ e ∈ deeds, e.jumps = false := fun e he =>
        Bool.eq_false_iff.mpr fun hjump => hlater ⟨e, he, hjump⟩
      obtain ⟨e, he, hjump⟩ := h
      rcases List.mem_cons.mp he with rfl | he
      · exact ⟨[], e, deeds, rfl, hjump, hstay⟩
      · exact absurd ⟨e, he, hjump⟩ hlater

/-- What an action writes can be read back from its literal. -/
def Game.WritesTrimmed (g : Game) (a : String × String) : Prop :=
  ∀ e ∈ (g.actRun .silent a.1 a.2 ()).2.session.values.entries, e.2.dirty → e.2.Trimmed

instance (g : Game) (a : String × String) : Decidable (g.WritesTrimmed a) :=
  inferInstanceAs (Decidable (∀ e ∈ _, _))

namespace Session

variable {s t : Session} {gives : String → ProperValue}

/-! ### Keeping in step -/

theorem renameTo_new (new name : String) :
    ∃ name', Function.renameTo new { name := name } = { name := name' } := by
  rw [Function.renameTo]
  split
  · exact ⟨_, rfl⟩
  · exact ⟨_, rfl⟩

/-- Where a jump leads to the session is settled, and no action is waiting any more. -/
theorem Consistent.settled_of_jump {g : Setting σ} {V : Value → Prop} (hc : s.Consistent)
    (hbook : ∀ name host t host', g.book.load name host = (some t, host') →
      t.Settled gives ∧ t.pending = none) {deed : Deed} (he : Effect g V s deed t)
    (hjump : deed.jumps = true) : t.Settled gives ∧ t.pending = none := by
  cases he with
  | change | rename => cases hjump
  | nothing hstay =>
    rw [hstay] at hjump
    cases hjump
  | switch hf | bookmark hf => rcases hf with rfl | rfl <;> cases hjump
  | load args ht => exact hbook _ _ _ _ ht
  | restart args new =>
    obtain ⟨name, hname⟩ := renameTo_new new s.name
    rw [reset, hname]
    exact ⟨settled_of_start rfl rfl rfl, rfl⟩
  | jump args ht =>
    refine ⟨hc.settled_move? gives (m := .load _) ht, ?_⟩
    rw [Session.loadSnapshot?] at ht
    split at ht
    · cases ht
    · cases ht
      rfl

/-- Every deed keeps a session in step with its logs. -/
theorem InSync.effect {g : Setting σ} (hgives : ∀ noun, g.defaultOf noun = (gives noun).1)
    (hbook : ∀ name host t host', g.book.load name host = (some t, host') →
      t.Settled gives ∧ t.pending = none) (hs : s.InSync gives) (hc : s.Consistent)
    {deed : Deed} (he : Effect g Value.Proper s deed t) : t.InSync gives := by
  by_cases hjump : deed.jumps = true
  · exact (hc.settled_of_jump hbook he hjump).1.toInSync
  cases he with
  | change noun c hv =>
    have hown : (s.ownValue noun (gives noun).1).Proper := by
      rw [ownValue]
      cases hvalue : s.value? noun with
      | none => exact (gives noun).2.congr rfl
      | some v => exact hs.proper noun v hvalue
    rw [hgives]
    exact hs.insert (Value.lasting_proper.change hown hv c) fun hclean =>
      Value.change_of_clean hv hclean
  | nothing => exact hs
  | switch | rename => exact hs.congr rfl fun _ => rfl
  | load | restart | jump => exact absurd rfl hjump
  | bookmark hf args answer hpending ht =>
    obtain ⟨bookmarks, rfl⟩ := eq_of_addBookmark? ht
    exact hs.congr rfl fun _ => rfl

/-- A deed that neither touches nor jumps leaves a settled session settled. -/
theorem Settled.effect {g : Setting σ} {V : Value → Prop} (hs : s.Settled gives)
    (hpending : s.pending = none) {deed : Deed} (he : Effect g V s deed t)
    (hstay : deed.jumps = false) (hquiet : deed.touches = false) :
    t.Settled gives ∧ t.pending = none := by
  cases he with
  | change => cases hquiet
  | nothing => exact ⟨hs, hpending⟩
  | switch hf => rcases hf with rfl | rfl <;> cases hquiet
  | rename => exact ⟨hs.congr rfl rfl rfl rfl rfl, hpending⟩
  | load | restart | jump => cases hstay
  | bookmark hf args answer _ ht =>
    obtain ⟨bookmarks, rfl⟩ := eq_of_addBookmark? ht
    exact ⟨hs.congr rfl rfl rfl rfl rfl, hpending⟩

/-- Deeds that neither touch nor jump leave a settled session settled. -/
theorem Settled.leads {g : Setting σ} {V : Value → Prop} {deeds : List Deed}
    (h : Leads g V s deeds t) (hs : s.Settled gives) (hpending : s.pending = none)
    (hstay : ∀ d ∈ deeds, d.jumps = false) (hquiet : ∀ d ∈ deeds, d.touches = false) :
    t.Settled gives ∧ t.pending = none :=
  h.invariant (P := fun s => s.Settled gives ∧ s.pending = none)
    (fun hd he hs => hs.1.effect hs.2 he (hstay _ hd) (hquiet _ hd)) ⟨hs, hpending⟩

/-- Taking up an action keeps the session in step, at the end of its logs. -/
theorem InSync.setAction_trim (hs : s.InSync gives) (hc : s.Consistent) (noun verb : String) :
    (s.trim.setAction noun verb).InSync gives := by
  refine hs.congr ?_ hc.recorded?_trim
  by_cases htip : s.isAtTip
  · rw [trim, if_pos htip]
    rfl
  · rw [trim_of_not_isAtTip htip]
    rfl

/-- A bookmark leaves a settled session settled. -/
theorem Settled.record (hs : s.createSnapshot.Settled gives) (hpending : s.pending.isSome)
    (bookmark : Option (Option String)) :
    (Game.record s bookmark).Settled gives ∧ (Game.record s bookmark).pending = none := by
  have hnone : s.createSnapshot.pending = none := by
    rw [createSnapshot]
    split <;> rfl
  obtain ⟨bookmarks, heq⟩ := Game.exists_record_of_pending hpending bookmark
  rw [heq]
  exact ⟨hs.congr rfl rfl rfl rfl rfl, hnone⟩

/-- At the end of an action the session is settled, whether the action is recorded or has jumped. -/
theorem Settled.act {g : Setting σ} (hgives : ∀ noun, g.defaultOf noun = (gives noun).1)
    (hbook : ∀ name host t host', g.book.load name host = (some t, host') →
      t.Consistent ∧ t.Settled gives ∧ t.pending = none)
    (hs : s.Settled gives) (hc : s.Consistent) {noun verb : String} {deeds : List Deed}
    (h : Leads g Value.Proper (s.trim.setAction noun verb) deeds t) (hquiet : QuietAtEnd deeds)
    (htrimmed : ∀ e ∈ t.values.entries, e.2.dirty → e.2.Trimmed)
    (bookmark : Option (Option String)) :
    (Game.record t bookmark).Settled gives ∧ (Game.record t bookmark).pending = none := by
  -- in step up to any point of the run
  have hstep : ∀ {s t : Session} {deeds : List Deed}, Leads g Value.Proper s deeds t →
      s.InSync gives ∧ s.Consistent → t.InSync gives ∧ t.Consistent := by
    intro s t deeds h hs
    refine h.invariant (P := fun s => s.InSync gives ∧ s.Consistent) (fun _ he hs => ?_) hs
    exact ⟨hs.1.effect hgives (fun _ _ _ _ ht => (hbook _ _ _ _ ht).2) hs.2 he,
      hs.2.effect (fun _ _ _ _ ht => (hbook _ _ _ _ ht).1) he⟩
  have hstart := hs.toInSync.setAction_trim hc noun verb
  have hconsistent := hc.trim.setAction noun verb
  by_cases hjump : ∃ d ∈ deeds, d.jumps = true
  · obtain ⟨before, d, after, rfl, hd, hstay⟩ := exists_last_jump hjump
    obtain ⟨u, hbefore, hrest⟩ := h.of_append
    cases hrest with
    | cons he hafter =>
      obtain ⟨-, hu⟩ := hstep hbefore ⟨hstart, hconsistent⟩
      obtain ⟨hsettled, hpending⟩ :=
        hu.settled_of_jump (fun _ _ _ _ ht => (hbook _ _ _ _ ht).2) he hd
      obtain ⟨hsettled, hpending⟩ :=
        hsettled.leads hafter hpending hstay (hquiet before d after rfl hd hstay)
      rw [Game.record, hpending]
      exact ⟨hsettled, hpending⟩
  · have hstay : ∀ d ∈ deeds, d.jumps = false := fun d hd =>
      Bool.eq_false_iff.mpr fun hd' => hjump ⟨d, hd, hd'⟩
    obtain ⟨hsync, hct⟩ := hstep h ⟨hstart, hconsistent⟩
    obtain ⟨name, values, assets, rfl⟩ := h.stays rfl hstay
    exact (hsync.createSnapshot hct hc.isAtTip_trim htrimmed).record rfl bookmark

/-! ### Games that are played -/

/-- The sessions that acting and moving lead to in a story, if what is written can be read back from
its literal, and nothing is touched behind a jump. A book hands out such sessions only. -/
inductive Played (story : Story) : Session → Prop where
  | start (name : String) : Played story { name }
  | move {s : Session} (m : Move) (hs : Played story s) : Played story (s.apply m.operation)
  | act {σ : Type} {s : Session} (config : Config) (book : Book σ) (host : σ)
      (noun verb : String)
      (hbook : ∀ name host t host', book.load name host = (some t, host') → Played story t)
      (hs : Played story s)
      (hquiet : QuietAtEnd (Game.actDeeds ⟨story, s, config⟩ book noun verb host))
      (htrimmed : ∀ e ∈
        (Game.actRun ⟨story, s, config⟩ book noun verb host).2.session.values.entries,
          e.2.dirty → e.2.Trimmed) :
      Played story (Game.after ⟨story, s, config⟩ book host (.act noun verb))

/-- Some actions with the book that does nothing. -/
theorem Played.performed {g : Game} (h : Played g.story g.session) {acts : List (String × String)}
    (hacts : g.Throughout (fun g a => QuietAtEnd (g.actDeeds .silent a.1 a.2 ()) ∧
      g.WritesTrimmed a) acts) :
    Played g.story (g.performed acts).session := by
  induction acts generalizing g with
  | nil => exact h
  | cons a acts ih =>
    have hstep : Played g.story (g.acted a).session :=
      .act g.config .silent () a.1 a.2 Book.load_silent h
        hacts.1.1 hacts.1.2
    exact ih (g := g.acted a) hstep hacts.2

/-- The session as its snapshot at hand has it; at the start of the story there is nothing. -/
def restored (s : Session) : Session :=
  (s.loadSnapshot? s.current).getD { s with values := .empty, assets := .empty }

theorem pending_move? {m : Move} (ht : s.move? m = some t) : t.pending = none := by
  rw [move?_eq] at ht
  split at ht
  · cases ht
    rfl
  · split at ht
    · cases ht
      rfl
    · cases ht

/-- Between two calls the session is settled, and no action is waiting. -/
theorem Played.settled {story : Story} (hstory : story.Sound) (hs : Played story s) :
    s.Consistent ∧ s.Settled (story.given hstory) ∧ s.pending = none := by
  induction hs with
  | start name => exact ⟨consistent_new name, settled_of_start rfl rfl rfl, rfl⟩
  | @move s m hs ih =>
    rw [apply_operation]
    cases ht : s.move? m with
    | none => exact ih
    | some t =>
      have hc := ih.1.apply m.operation
      rw [apply_operation, ht] at hc
      exact ⟨hc, ih.1.settled_move? _ ht, pending_move? ht⟩
  | @act σ s config book host noun verb hbook hs hquiet htrimmed ihbook ih =>
    obtain ⟨hc, hsettled, hpending⟩ := ih
    have hafter := hc.after (g := ⟨story, s, config⟩) book (fun _ _ _ _ ht => (ihbook _ _ _ _ ht).1)
      host (.act noun verb)
    rw [Game.after_act] at hafter ⊢
    cases hcheck : Game.checkVerb ⟨story, s, config⟩ noun verb with
    | error e => exact ⟨hc, hsettled, hpending⟩
    | ok _ =>
      rw [hcheck] at hafter
      have hstart := (hsettled.toInSync.setAction_trim hc noun verb).proper
      have hgives : (Game.setting ⟨story, s, config⟩ book).Gives Value.Proper :=
        ⟨fun noun => (story.given hstory noun).2,
          fun _ _ _ _ ht => (ihbook _ _ _ _ ht).2.1.proper⟩
      have hleads := Game.leads_act ⟨story, s, config⟩ book Value.lasting_proper hgives noun verb
        host hstart
      exact ⟨hafter, hsettled.act (fun _ => rfl) ihbook hc hleads hquiet htrimmed _⟩

theorem history_restored (s : Session) : s.restored.history = s.history ∧
    s.restored.snapshots = s.snapshots ∧ s.restored.current = s.current := by
  rw [restored]
  cases ht : s.loadSnapshot? s.current with
  | none => exact ⟨rfl, rfl, rfl⟩
  | some t =>
    rw [loadSnapshot?] at ht
    split at ht
    · cases ht
    · cases ht
      exact ⟨rfl, rfl, rfl⟩

theorem Consistent.settled_restored (hc : s.Consistent) : s.restored.Settled gives := by
  rw [restored]
  cases ht : s.loadSnapshot? s.current with
  | some t => exact hc.settled_move? gives (m := .load s.current) ht
  | none =>
    have hlt := hc.current_lt
    have hcurrent : s.current = 0 := by
      rw [Session.loadSnapshot?] at ht
      split at ht
      next h => exact h.resolve_right (by omega)
      next => cases ht
    refine settled_of_start rfl rfl ?_
    show s.snapshot s.current = .start
    rw [hcurrent]
    exact snapshot_eq hc.first

/-- In a story that was loaded, what is live between two calls is what going to the snapshot at hand
restores: the values of all nouns, where one that nobody knows counts as empty, and the active
assets. -/
theorem Played.live_eq_restored {source : String} (hs : Played (Story.load source).story s)
    (config : Config) :
    (∀ noun, (Game.value? ⟨(Story.load source).story, s, config⟩ noun).getD .empty =
      (Game.value? ⟨(Story.load source).story, s.restored, config⟩ noun).getD .empty) ∧
    s.activeAssets = s.restored.activeAssets := by
  have hsound := Story.sound_load source
  obtain ⟨hc, hsettled, -⟩ := hs.settled hsound
  have hrestored : s.restored.Settled ((Story.load source).story.given hsound) :=
    hc.settled_restored
  obtain ⟨hhistory, hsnapshots, hcurrent⟩ := s.history_restored
  have hview : s.view ((Story.load source).story.given hsound) =
      s.restored.view ((Story.load source).story.given hsound) := by
    rw [hsettled.view_eq, hrestored.view_eq, snapshot, snapshot, hhistory, hsnapshots, hcurrent]
  refine ⟨fun noun => ?_, congrArg View.assets hview⟩
  rw [Game.value?_eq_ownValue hsound, Game.value?_eq_ownValue hsound, hsettled.ownValue_eq,
    hrestored.ownValue_eq, hview]

/-- A counter, and a way back to the first snapshot. -/
def counterSource : String :=
  "[n=#0][:up]!n+=#1[:back]!LoadSnapshot(#1)"

/-- The counter after two steps up and the way back. -/
def counterGame : Game :=
  Game.performed ⟨(Story.load counterSource).story, .fresh, {}⟩
    [("n", "up"), ("n", "up"), ("n", "back")]

/-- On the way back the counter shows what it did after the first step, as going there would. -/
theorem live_eq_restored_counter : counterGame.session.current = 1 ∧
    (counterGame.value? "n").getD .empty = .ofInteger 1 ∧
    ((counterGame.withSession counterGame.session.restored).value? "n").getD .empty =
      .ofInteger 1 := by
  have hplayed : Played (Story.load counterSource).story counterGame.session :=
    Played.performed (g := ⟨(Story.load counterSource).story, .fresh, {}⟩)
      (.start defaultName) (by decide +kernel)
  have hlive := (hplayed.live_eq_restored {}).1 "n"
  have hcounter : counterGame.session.current = 1 ∧
      (counterGame.value? "n").getD .empty = .ofInteger 1 := by
    decide +kernel
  exact ⟨hcounter.1, hcounter.2, hlive.symm.trans hcounter.2⟩

/-- A verb that counts on behind a jump, and one that writes an atom with a blank in front. -/
def strayStory : Story :=
  (Story.load "[n=#0][:up]!n+=#1[:back]!LoadSnapshot(#1)!n+=#5[x][:go]!x=\\ a").story

/-- The session after some actions in the story of the two verbs. -/
def straySession (acts : List (String × String)) : Session :=
  (Game.performed ⟨strayStory, .fresh, {}⟩ acts).session

/-- Neither comes back: behind the jump the counter is live with six and restored with one, and the
atom is restored without its blank. -/
theorem live_ne_restored :
    (let s := straySession [("n", "up"), ("n", "up"), ("n", "back")]
    s.current = 1 ∧
      (Game.value? ⟨strayStory, s, {}⟩ "n").map (·.integer) = some 6 ∧
      (Game.value? ⟨strayStory, s.restored, {}⟩ "n").map (·.integer) = some 1) ∧
    (let s := straySession [("x", "go")]
    s.current = 1 ∧
      (Game.value? ⟨strayStory, s, {}⟩ "x").map (·.atoms) = some [" a"] ∧
      (Game.value? ⟨strayStory, s.restored, {}⟩ "x").map (·.atoms) = some ["a"]) := by
  decide +kernel

end Session

end Gamebook
