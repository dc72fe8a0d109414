import Gamebook.Proofs.Game.Operations
import Gamebook.Proofs.Session.Trimming
import Gamebook.Story.Source

/-!
# Actions are transactions

An action either is refused, and then nothing happens, or it is recorded as a whole
(`Session.Reached.act_transaction`): what was undone is discarded, and there is exactly one new
snapshot, whatever the verb runs in between. Only a verb that jumps, to a snapshot or to another
session, is its own effect.

Between the cut and the snapshot nothing but the name, the values and the assets of the session
change (`Leads.stays`). So the new snapshot goes behind the one the action started from.
-/

namespace Gamebook

variable {σ : Type}

namespace Session

variable {s t : Session}

/-! ### What is left of the past -/

/-- A session after an action that was recorded, seen from the one before it. -/
structure Acted (s t : Session) (entry : String) : Prop where
  snapshots_eq : ∃ p, t.snapshots = s.snapshots.take (s.current + 1) ++ [p]
  current_eq : t.current = s.current + 1
  isAtTip : t.isAtTip
  queue_eq : t.history.queue = s.history.queue.take s.current ++ [entry]
  /-- At most the new action has a bookmark that was not there. -/
  bookmarks_eq : t.bookmarks.erase s.current = s.bookmarks.filterKeys fun queue => queue < s.current
  clean : ∀ noun v, t.value? noun = some v → v.dirty = false
  pending_eq : t.pending = none
  restores : ∀ i, 1 ≤ i → i ≤ s.current → ∃ u w, s.loadSnapshot? i = some u ∧
    t.loadSnapshot? i = some w ∧ w.values = u.values ∧ w.assets = u.assets

theorem Consistent.queue_trim (hc : s.Consistent) :
    s.trim.history.queue = s.history.queue.take s.current := by
  by_cases htip : s.isAtTip
  · have hcurrent : s.current = s.history.queue.length := by
      have hlength := hc.length_snapshots
      have hlast := isAtTip_iff.mp htip
      omega
    rw [Session.trim, if_pos htip, hcurrent, List.take_length]
  · rw [trim_of_not_isAtTip htip, History.truncate, hc.queue_snapshot hc.current_lt]

theorem Consistent.bookmarks_trim (hc : s.Consistent) :
    s.trim.bookmarks = s.bookmarks.filterKeys fun queue => queue < s.current := by
  by_cases htip : s.isAtTip
  · have hall : ∀ e ∈ s.bookmarks.entries, decide (e.1 < s.current) = true := by
      intro e he
      have hlt := hc.bookmarks_lt e he
      have hlength := hc.length_snapshots
      have hlast := isAtTip_iff.mp htip
      exact decide_eq_true (by omega)
    rw [Session.trim, if_pos htip]
    exact SortedMap.ext (List.filter_eq_self.mpr hall).symm
  · rw [trim_of_not_isAtTip htip, hc.queue_snapshot hc.current_lt]

/-- Recording keeps what is in the logs up to a snapshot that is there. -/
theorem Consistent.restore_createSnapshot (hc : s.Consistent) (htip : s.isAtTip) {i : Nat}
    (hi : i < s.snapshots.length) :
    (s.createSnapshot.restore i).values = (s.restore i).values ∧
      (s.createSnapshot.restore i).assets = (s.restore i).assets := by
  obtain ⟨-, -, ws, hwrites⟩ := hc.recorded
  obtain ⟨-, hassets, hchanges⟩ :=
    follows_iff.mp (hc.tip_follows (List.mem_of_getElem? (getElem?_snapshots hi)))
  have hcreate := createSnapshot_of_isAtTip htip
  have hsnapshot : s.createSnapshot.snapshot i = s.snapshot i := by
    rw [hcreate]
    refine snapshot_eq ?_
    rw [List.getElem?_append_left hi]
    exact getElem?_snapshots hi
  refine hc.restore_congr hc.createSnapshot hsnapshot ?_ ?_
  · rw [hcreate]
    show s.recorded.writes.take _ = _
    rw [hwrites, List.take_append_of_le_length]
    rw [hc.history.length_writes]
    exact hchanges
  · rw [hcreate]
    show s.recorded.assets.take _ = _
    rcases hc.assets_recorded with ⟨-, heq⟩ | heq
    · rw [heq]
    · rw [heq, List.take_append_of_le_length hassets]

/-- Recording an action that stayed at its place. -/
theorem Consistent.acted_createSnapshot (hc : s.Consistent) (noun verb name : String)
    (values : SortedMap String Value) (assets : SortedMap String Unit) :
    s.Acted { s.trim.setAction noun verb with name, values, assets }.createSnapshot
      s!"{noun}:{verb}" := by
  generalize ht : { s.trim.setAction noun verb with name, values, assets } = t
  have hct : t.Consistent := by
    rw [← ht]
    exact hc.trim.congr rfl rfl hc.trim.current_lt rfl
  have htip : t.isAtTip := by
    rw [← ht]
    exact hc.isAtTip_trim
  have hsnapshots : t.snapshots = s.snapshots.take (s.current + 1) := by
    rw [← ht]
    exact s.snapshots_trim
  have hcurrent : t.current = s.current := by
    rw [← ht]
    exact s.current_trim
  have hqueue : t.history.queue = s.history.queue.take s.current := by
    rw [← ht]
    exact hc.queue_trim
  have hlength : t.snapshots.length = s.current + 1 := by
    rw [← isAtTip_iff.mp htip, hcurrent]
  have hcreate := createSnapshot_of_isAtTip htip
  refine ⟨⟨t.recorded.tip, ?_⟩, ?_, isAtTip_createSnapshot htip, ?_, ?_, ?_, ?_,
    fun i hpos hi => ?_⟩
  · rw [hcreate, ← hsnapshots]
  · rw [hcreate, hlength]
  · rw [hcreate]
    show t.recorded.queue = _
    rw [hct.recorded.2.1, hqueue, ← ht]
    rfl
  · rw [hcreate, ← ht]
    show s.trim.bookmarks.erase s.current = _
    rw [hc.bookmarks_trim]
    refine SortedMap.ext_get? fun queue => ?_
    rw [SortedMap.erase, SortedMap.get?_filterKeys, SortedMap.get?_filterKeys]
    grind
  · intro noun v hv
    rw [value?_createSnapshot] at hv
    obtain ⟨w, -, rfl⟩ := Option.map_eq_some_iff.mp hv
    rfl
  · rw [hcreate]
  · have hold : i < s.snapshots.length := by
      have hlt := hc.current_lt
      omega
    have hnew : i < t.createSnapshot.snapshots.length := by
      rw [hcreate]
      simp only [List.length_append, List.length_singleton]
      omega
    have htrim : t.restore i = { s.trim.restore i with name } := by
      rw [← ht]
      rfl
    obtain ⟨hvalues, hassets⟩ := hct.restore_createSnapshot htip (i := i) (by omega)
    obtain ⟨hvalues', hassets'⟩ := hc.restore_trim hi
    rw [htrim] at hvalues hassets
    exact ⟨_, _, loadSnapshot?_of_lt hpos hold, loadSnapshot?_of_lt hpos hnew,
      hvalues.trans hvalues', hassets.trans hassets'⟩

/-- Snapshots are loaded in the same way whatever the bookmarks are. -/
theorem loadSnapshot?_bookmarks (s : Session) (bookmarks : SortedMap Nat String) (i : Nat) :
    loadSnapshot? { s with bookmarks } i =
      (s.loadSnapshot? i).map fun t => { t with bookmarks } := by
  rw [loadSnapshot?, loadSnapshot?]
  split <;> rfl

/-- A bookmark on the new action changes nothing about the others. -/
theorem Acted.addBookmark {entry : String} (h : s.Acted t entry) {description : Option String}
    {u : Session} {queue : Nat} (hc : t.Consistent)
    (hu : t.addBookmark? description = some (u, queue)) : s.Acted u entry := by
  have hqueue : (t.snapshot t.current).queue = s.current + 1 := by
    rw [hc.queue_snapshot hc.current_lt, h.current_eq]
  rw [addBookmark?_eq, hqueue, if_neg (Nat.succ_ne_zero _), Nat.add_sub_cancel] at hu
  obtain ⟨w, hw, heq⟩ := Option.map_eq_some_iff.mp hu
  obtain ⟨rfl, rfl⟩ : w = u ∧ s.current = queue := by simpa using heq
  obtain ⟨text, -, rfl⟩ := Option.map_eq_some_iff.mp hw
  refine ⟨h.snapshots_eq, h.current_eq, h.isAtTip, h.queue_eq, ?_, h.clean, h.pending_eq,
    fun i hpos hi => ?_⟩
  · rw [← h.bookmarks_eq]
    refine SortedMap.ext_get? fun queue => ?_
    rw [SortedMap.erase, SortedMap.erase, SortedMap.get?_filterKeys, SortedMap.get?_filterKeys,
      SortedMap.get?_insert]
    grind
  · obtain ⟨old, new, hold, hnew, hvalues, hassets⟩ := h.restores i hpos hi
    have hload := t.loadSnapshot?_bookmarks
      (t.bookmarks.insert s.current (bookmarkText description text)) i
    rw [hnew] at hload
    exact ⟨old, _, hold, hload, hvalues, hassets⟩

/-- Recording an action that stayed at its place, with the bookmark it asked for. -/
theorem Consistent.acted_record (hc : s.Consistent) (noun verb : String)
    (ht : ∃ name values assets, t = { s.trim.setAction noun verb with name, values, assets })
    (bookmark : Option (Option String)) :
    s.Acted (Game.record t bookmark) s!"{noun}:{verb}" := by
  obtain ⟨name, values, assets, rfl⟩ := ht
  have hcreated := hc.acted_createSnapshot noun verb name values assets
  have hconsistent : { s.trim.setAction noun verb with name, values, assets }.Consistent :=
    hc.trim.congr rfl rfl hc.trim.current_lt rfl
  rw [Game.record_of_pending rfl]
  cases bookmark with
  | none => exact hcreated
  | some description =>
    dsimp only
    split
    next hadd => exact hcreated.addBookmark hconsistent.createSnapshot hadd
    next => exact hcreated

/-- An action is refused if its page or its verb is missing, and then the session is what it was,
with the snapshots that were undone. Else it goes through; and if its run does not jump, there is
one new snapshot behind the one at hand, with all that belongs to it. This is so for every book. If
the book hands out such sessions only as operations lead to, so does the action. -/
theorem Reached.act_transaction {g : Game} (hg : g.session.Reached) (book : Book σ)
    (noun verb : String) (host : σ) :
    (g.story.page? noun = none → g.act book noun verb host = .error (.pageNotFound noun)) ∧
    (∀ p, g.story.page? noun = some p → p.findVerb? verb = none →
      g.act book noun verb host = .error (.verbNotFound noun verb)) ∧
    (∀ e, g.act book noun verb host = .error e → g.after book host (.act noun verb) = g.session) ∧
    ∀ p v, g.story.page? noun = some p → p.findVerb? verb = some v →
      ∃ reading g' host', g.act book noun verb host = .ok (reading, g', host') ∧
        g.after book host (.act noun verb) = g'.session ∧
        ((∀ name host t host', book.load name host = (some t, host') → Reached t) →
          g'.session.Reached) ∧
        ((∀ d ∈ g.actDeeds book noun verb host, d.jumps = false) →
          g.session.Acted g'.session s!"{noun}:{verb}") := by
  refine ⟨fun hp => ?_, fun p hp hv => ?_, fun e he => ?_, fun p v hp hv => ?_⟩
  · rw [Game.act_eq, Game.checkVerb_eq, hp]
  · rw [Game.act_eq, Game.checkVerb_eq, hp]
    simp [hv]
  · rw [Game.after, he]
    rfl
  · have hact := g.act_of_findVerb? book hp hv host
    have hafter : g.after book host (.act noun verb) = g.actSession book noun verb host := by
      rw [Game.after, hact]
      rfl
    refine ⟨_, _, _, hact, hafter, fun hbook => ?_, fun hstay => ?_⟩
    · have hreached := Reached.game book host (.act noun verb) hbook hg
      rwa [hafter] at hreached
    · have hrun := g.session_actRun book noun verb host hstay
      exact hg.consistent.acted_record noun verb hrun _

/-- A lamp was lit, and putting it out was undone. -/
def lampGame : Game :=
  let g := Game.performed
    { story := (Story.load "[lamp][:light]!lamp=lit[:douse]!lamp-=lit!Bookmark()").story }
    [("lamp", "light"), ("lamp", "douse")]
  g.withSession (g.session.apply .undo)

/-- Putting the lamp out once more takes the place of what was undone. -/
theorem act_transaction_lamp :
    (lampGame.session.snapshots.length = 3 ∧ lampGame.session.current = 1) ∧
    ∃ reading g' host', lampGame.act .silent "lamp" "douse" () = .ok (reading, g', host') ∧
      g'.session.Reached ∧ lampGame.session.Acted g'.session "lamp:douse" := by
  have hreached : lampGame.session.Reached := .session .undo (.performed (.start _) _)
  have hverb : ((lampGame.story.page? "lamp").bind (·.findVerb? "douse")).isSome := by
    decide +kernel
  obtain ⟨v, hv⟩ := Option.isSome_iff_exists.mp hverb
  obtain ⟨p, hp, hv⟩ := Option.bind_eq_some_iff.mp hv
  obtain ⟨reading, g', host', hact, -, hleads, hacted⟩ :=
    (Reached.act_transaction hreached .silent "lamp" "douse" ()).2.2.2 p v hp hv
  exact ⟨by decide +kernel, reading, g', host', hact, hleads Book.load_silent,
    hacted (by decide +kernel)⟩

end Session

end Gamebook
