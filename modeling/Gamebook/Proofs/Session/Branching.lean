import Gamebook.Proofs.Session.Trimming

/-!
# Branches

A player who steps back and acts goes on as if what was undone had not been. Two things may still
be told apart: a value may be the session's own on one side and the story's on the other, and the
logs may know of variables without a history. So sessions are compared by what an action reads
(`Session.Alike`) and by what it adds to (`Session.SamePast`). Recording an action keeps both
(`SamePast.createSnapshot`), and stepping back over all that was done since some moment leads to
both (`Continues.undone`).
-/

namespace Gamebook

/-! ### The same logs -/

namespace History

variable {h h' : History}

/-- The same actions, assets and writes. -/
structure Same (h h' : History) : Prop where
  queue_eq : h.queue = h'.queue
  assets_eq : h.assets = h'.assets
  writes_eq : h.writes = h'.writes

/-- A snapshot of the same logs says the same, since each change is a write. -/
theorem Same.tip_eq (hsame : h.Same h') (hc : h.Consistent) (hc' : h'.Consistent) :
    h.tip = h'.tip := by
  rw [tip, tip, hsame.queue_eq, hsame.assets_eq, ← hc.length_writes, ← hc'.length_writes,
    hsame.writes_eq]

theorem Same.recordAction (hsame : h.Same h') (entry : String) :
    (h.recordAction entry).Same (h'.recordAction entry) where
  queue_eq := congrArg (· ++ [entry]) hsame.queue_eq
  assets_eq := hsame.assets_eq
  writes_eq := hsame.writes_eq

/-- Whether assets are recorded hangs on the last set, which is the same. -/
theorem Same.recordAssets (hsame : h.Same h') (active : List String) :
    (h.recordAssets active).1.Same (h'.recordAssets active).1 := by
  rw [History.recordAssets, History.recordAssets, ← hsame.assets_eq]
  split
  · exact hsame
  · exact ⟨hsame.queue_eq, rfl, hsame.writes_eq⟩

/-- Whether a value is recorded hangs on the last one written to its noun, which is the same. -/
theorem Same.recordValue (hsame : h.Same h') (hc : h.Consistent) (hc' : h'.Consistent)
    (name literal : String) :
    (h.recordValue name literal).1.Same (h'.recordValue name literal).1 := by
  obtain ⟨hqueue, hassets⟩ := h.recordValue_queue_assets name literal
  obtain ⟨hqueue', hassets'⟩ := h'.recordValue_queue_assets name literal
  refine ⟨?_, ?_, ?_⟩
  · rw [hqueue, hqueue', hsame.queue_eq]
  · rw [hassets, hassets', hsame.assets_eq]
  · rw [hc.writes_recordValue, hc'.writes_recordValue, hsame.writes_eq]

/-- Recording the same marked values. -/
theorem Same.recordValues (hsame : h.Same h') (hc : h.Consistent) (hc' : h'.Consistent)
    (es : List (String × Value)) :
    (Session.recordValues h es).Same (Session.recordValues h' es) := by
  induction es generalizing h h' with
  | nil => exact hsame
  | cons e es ih =>
    obtain ⟨noun, v⟩ := e
    rw [Session.recordValues_cons, Session.recordValues_cons]
    split
    · exact ih (hsame.recordValue hc hc' noun v.literal) (hc.recordValue noun v.literal)
        (hc'.recordValue noun v.literal)
    · exact ih hsame hc hc'

/-- Variables without a history write nothing. -/
theorem Consistent.writes_withVariables (hc : h.Consistent) (names : List String) :
    (h.withVariables names).writes = h.writes := by
  refine List.filterMap_congr fun c hmem => ?_
  rw [write?, write?, withVariables, List.getElem?_append_left (hc.change_tracked c hmem)]

end History

namespace Session

variable {s t u : Session}

/-! ### What an action reads and adds to -/

/-- Two sessions that a run cannot tell apart unless it asks about the past; `gives` are the values
that the story gives, and the names are the same if the run may know them. -/
structure Alike (known : Prop) (gives : String → Value) (s t : Session) : Prop where
  name_eq : known → s.name = t.name
  ownValue_eq : ∀ noun, s.ownValue noun (gives noun) = t.ownValue noun (gives noun)
  assets_eq : s.assets = t.assets

/-- The same actions, snapshots and position, and the same entries in the logs. -/
structure SamePast (s t : Session) : Prop where
  history : s.history.Same t.history
  snapshots_eq : s.snapshots = t.snapshots
  current_eq : s.current = t.current

variable {known : Prop} {gives : String → Value}

theorem Alike.refl (s : Session) : s.Alike known gives s :=
  ⟨fun _ => rfl, fun _ => rfl, rfl⟩

theorem SamePast.refl (s : Session) : s.SamePast s :=
  ⟨⟨rfl, rfl, rfl⟩, rfl, rfl⟩

theorem SamePast.isAtTip_iff (h : s.SamePast t) : s.isAtTip ↔ t.isAtTip := by
  rw [Session.isAtTip_iff, Session.isAtTip_iff, h.snapshots_eq, h.current_eq]

/-- The values that are marked, with their nouns. -/
def marked (s : Session) : SortedMap String Value where
  entries := s.values.entries.filter (·.2.dirty)
  sorted := s.values.sorted.filter _

/-- Only marked values are recorded. -/
theorem recordValues_marked (h : History) (s : Session) :
    recordValues h s.marked.entries = recordValues h s.values.entries := by
  rw [marked, recordValues, List.foldl_filter, recordValues]
  congr 1
  funext h e
  grind

/-- A marked value is one of the session that is dirty. -/
theorem get?_marked {noun : String} {v : Value} :
    s.marked.get? noun = some v ↔ s.value? noun = some v ∧ v.dirty := by
  rw [SortedMap.get?_eq_some_iff, marked, List.mem_filter, value?, SortedMap.get?_eq_some_iff]

/-- A marked value is the session's own. -/
theorem get?_marked_iff_ownValue {noun : String} {v : Value} (default : Value) :
    s.marked.get? noun = some v ↔ s.ownValue noun default = v ∧ v.dirty := by
  rw [get?_marked, ownValue]
  cases s.value? noun with
  | some w => simp
  | none =>
    refine iff_of_false (by simp) ?_
    rintro ⟨rfl, hdirty⟩
    cases hdirty

/-- Sessions that are alike have the same values marked, as a value that the story gives is never
marked. -/
theorem Alike.marked_eq (h : s.Alike known gives t) : s.marked = t.marked := by
  refine SortedMap.ext_get? fun noun => Option.ext fun v => ?_
  rw [get?_marked_iff_ownValue (gives noun), get?_marked_iff_ownValue (gives noun),
    h.ownValue_eq]

/-- Recording leaves every value as it is, but for its mark. -/
theorem ownValue_createSnapshot (s : Session) (noun : String) (default : Value) :
    s.createSnapshot.ownValue noun default = (s.ownValue noun default).clearDirty := by
  rw [ownValue, ownValue, value?_createSnapshot]
  cases s.value? noun <;> rfl

/-- Recording the same action on the same past. -/
theorem SamePast.createSnapshot (h : s.SamePast t) (hs : s.Consistent) (ht : t.Consistent)
    (htip : s.isAtTip) (hlike : s.Alike known gives t) (hpending : s.pending = t.pending) :
    s.createSnapshot.SamePast t.createSnapshot ∧
      s.createSnapshot.Alike known gives t.createSnapshot := by
  have hactive : s.activeAssets = t.activeAssets := congrArg SortedMap.keys hlike.assets_eq
  have haction := hs.history.recordAction (s.pending.getD "")
  have haction' := ht.history.recordAction (s.pending.getD "")
  -- clean values are not recorded, so that it does not matter which ones a session has of its own
  have hrecorded : s.recorded.Same t.recorded := by
    rw [recorded, recorded, ← recordValues_marked, ← recordValues_marked, hlike.marked_eq,
      ← hpending, ← hactive]
    exact ((h.history.recordAction _).recordAssets s.activeAssets).recordValues
      (haction.recordAssets s.activeAssets_sorted) (haction'.recordAssets s.activeAssets_sorted) _
  have hcreate := createSnapshot_of_isAtTip htip
  have hcreate' := createSnapshot_of_isAtTip (h.isAtTip_iff.mp htip)
  refine ⟨⟨?_, ?_, ?_⟩, ⟨?_, fun noun => ?_, ?_⟩⟩
  · rw [hcreate, hcreate']
    exact hrecorded
  · rw [hcreate, hcreate', h.snapshots_eq, hrecorded.tip_eq hs.recorded.1 ht.recorded.1]
  · rw [hcreate, hcreate', h.snapshots_eq]
  · rw [hcreate, hcreate']
    exact hlike.name_eq
  · rw [ownValue_createSnapshot, ownValue_createSnapshot, hlike.ownValue_eq]
  · rw [hcreate, hcreate']
    exact hlike.assets_eq

/-! ### Going on, and back again -/

/-- A session that has gone on from another one by so many actions. -/
structure Continues (s t : Session) (n : Nat) : Prop where
  history : s.history.Extends t.history
  snapshots : s.snapshots <+: t.snapshots
  current_eq : t.current = s.current + n
  isAtTip : t.isAtTip

/-- At the tip a session goes on from itself by no action. -/
theorem continues_refl (htip : s.isAtTip) : s.Continues s 0 :=
  ⟨.refl _, List.prefix_rfl, rfl, htip⟩

/-- Recording goes on by one action. -/
theorem Continues.createSnapshot {n : Nat} (h : s.Continues t n) (hc : t.Consistent) :
    s.Continues t.createSnapshot (n + 1) := by
  have hcreate := createSnapshot_of_isAtTip h.isAtTip
  refine ⟨?_, ?_, ?_, isAtTip_createSnapshot h.isAtTip⟩
  · rw [hcreate]
    exact h.history.trans hc.extends_recorded
  · rw [hcreate]
    exact h.snapshots.trans (List.prefix_append _ _)
  · rw [hcreate, ← Nat.add_assoc, ← h.current_eq, isAtTip_iff.mp h.isAtTip]

/-- The session after stepping back so many times. -/
def undone (s : Session) : Nat → Session
  | 0 => s
  | n + 1 => (s.undone n).apply .undo

/-- Stepping back leads to the snapshot in front of the one at hand. -/
theorem Consistent.undo_of_pos (hc : s.Consistent) (hpos : 0 < s.current) :
    ∃ t, s.apply .undo = t ∧ t.Consistent ∧ (∀ story, t.Settled story) ∧ t.name = s.name ∧
      t.history = s.history ∧ t.snapshots = s.snapshots ∧ t.current = s.current - 1 := by
  cases ht : s.move? .undo with
  | none => exact absurd ((hc.move?_eq_none_iff .undo).mp ht) (by omega)
  | some t =>
    have happly : s.apply .undo = t := by
      have hmove := s.apply_operation .undo
      rwa [ht] at hmove
    obtain ⟨hhistory, hsnapshots⟩ := history_move? ht
    obtain ⟨hname, hcurrent⟩ := current_move? ht
    exact ⟨t, happly, happly ▸ hc.apply .undo, fun story => hc.settled_move? story ht, hname,
      hhistory, hsnapshots, hcurrent⟩

/-- Stepping back some times leads to a snapshot that many in front. -/
theorem Consistent.undone (hc : s.Consistent) {n : Nat} (hn : n ≤ s.current) :
    (s.undone n).Consistent ∧ (0 < n → ∀ story, (s.undone n).Settled story) ∧
      (s.undone n).name = s.name ∧ (s.undone n).history = s.history ∧
        (s.undone n).snapshots = s.snapshots ∧ (s.undone n).current = s.current - n := by
  induction n with
  | zero => exact ⟨hc, fun h => absurd h (Nat.lt_irrefl 0), rfl, rfl, rfl, rfl⟩
  | succ n ih =>
    obtain ⟨hconsistent, -, hname, hhistory, hsnapshots, hcurrent⟩ := ih (by omega)
    obtain ⟨t, ht, htc, hsettled, hname', hhistory', hsnapshots', hcurrent'⟩ :=
      hconsistent.undo_of_pos (by omega)
    rw [Session.undone, ht]
    exact ⟨htc, fun _ => hsettled, hname'.trans hname, hhistory'.trans hhistory,
      hsnapshots'.trans hsnapshots, by omega⟩

/-- Settled sessions of which the same is seen are alike. -/
theorem Settled.alike {story : String → ProperValue} (hs : s.Settled story) (ht : t.Settled story)
    (hview : s.view story = t.view story) (hname : known → s.name = t.name) :
    s.Alike known (fun noun => (story noun).1) t where
  name_eq := hname
  ownValue_eq noun := by rw [hs.ownValue_eq, ht.ownValue_eq, hview]
  assets_eq := by
    have hentries : ∀ m : SortedMap String Unit, m.entries = m.keys.map fun k => (k, ()) := by
      intro m
      rw [SortedMap.keys, List.map_map]
      exact (List.map_id _).symm
    have hactive : s.assets.keys = t.assets.keys := congrArg View.assets hview
    exact SortedMap.ext (by rw [hentries, hentries, hactive])

/-- Stepping back over all that was done since some moment, if anything was, leads to where the
session was then, but for the snapshots in front of it, which acting discards. -/
theorem Continues.undone {story : String → ProperValue} {n : Nat} (h : s.Continues t n)
    (hs : s.Consistent) (htip : s.isAtTip) (hsettled : s.Settled story) (ht : t.Consistent)
    (hname : known → s.name = t.name) (hpos : 0 < n) :
    (t.undone n).Consistent ∧ s.Alike known (fun noun => (story noun).1) (t.undone n) ∧
      s.SamePast (t.undone n).trim := by
  have hlt := hs.current_lt
  have hadvance := h.current_eq
  have hlast := isAtTip_iff.mp h.isAtTip
  obtain ⟨hc, hback, hsamename, hhistory, hsnapshots, hcurrent⟩ := ht.undone (n := n) (by omega)
  have hback := hback hpos story
  generalize t.undone n = u at *
  have hu : u.current = s.current := by omega
  have hnottip : ¬ u.isAtTip := by
    rw [isAtTip_iff, hsnapshots]
    omega
  obtain ⟨rest, hrest⟩ := h.snapshots
  -- the snapshot at hand is the one that was the newest then
  have hsnapshot : u.snapshot u.current = s.snapshot s.current := by
    rw [hu]
    refine snapshot_eq ?_
    rw [hsnapshots, ← hrest, List.getElem?_append_left hlt]
    exact getElem?_snapshots hlt
  have htrim := trim_of_not_isAtTip hnottip
  -- the cut goes back to the logs of the earlier session
  obtain ⟨names, -, htruncate⟩ := h.history.truncate_eq
  have hlogs : u.trim.history = s.history.withVariables names := by
    rw [htrim]
    show u.history.truncate (u.snapshot u.current) = _
    rw [hhistory, hsnapshot, hs.snapshot_current htip, htruncate _ (follows_refl _),
      hs.history.truncate_tip]
  have hwrites : u.trim.history.writes = s.history.writes := by
    rw [hlogs, hs.history.writes_withVariables]
  have hassets : u.trim.history.assets = s.history.assets := by
    rw [hlogs]
    rfl
  have hview : s.view story = u.view story := by
    rw [hsettled.view_eq, hback.view_eq, ← hc.view_trim story (Nat.le_refl _), hsnapshot]
    exact (History.view_congr story (by rw [hwrites]) (by rw [hassets])).symm
  refine ⟨hc, hsettled.alike hback hview fun hk => (hname hk).trans hsamename.symm, ?_, ?_, ?_⟩
  · refine ⟨?_, hassets.symm, hwrites.symm⟩
    rw [hlogs]
    rfl
  · rw [snapshots_trim, hsnapshots, hu, isAtTip_iff.mp htip, ← hrest, List.take_left]
  · rw [current_trim, hu]

end Session

end Gamebook
