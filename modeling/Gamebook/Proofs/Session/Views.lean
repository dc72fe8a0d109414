import Gamebook.Proofs.Session.Invariant
import Gamebook.Proofs.Value.Literal

/-!
# What is seen of a session

A story sees of a session the value of each noun and the active assets: `Session.view`. What the
logs say of a moment is a view as well (`History.view`), and it is the one that restoring gives
(`Consistent.view_restore`).

Between two snapshots a session may be ahead of its logs, but only in values that are marked:
`Session.InSync`. Taking a snapshot writes what is marked, so that afterwards the logs say what is
seen (`InSync.createSnapshot`).
-/

namespace Gamebook

/-- The values of nouns and the active assets. -/
structure View where
  values : String → Value
  assets : List String

/-- What logs say of a moment, in a story that gives nouns their values. -/
def History.view (h : History) (story : String → ProperValue) (p : Snapshot) : View where
  values noun :=
    (((SortedMap.ofList (h.writes.take p.changes)).get? noun).map Value.ofLiteral).getD
      (story noun).1.clearDirty
  assets := h.assetsAt p.assets

namespace SortedMap

variable {κ α β : Type} [LT κ] [LE κ] [DecidableLT κ] [Std.IsLinearOrder κ]
  [Std.LawfulOrderLT κ] [DecidableEq κ]

theorem ofList_map (es : List (κ × α)) (f : α → β) :
    ofList (es.map fun e => (e.1, f e.2)) = (ofList es).mapValues f := by
  refine ext_get? fun k => ?_
  rw [get?_mapValues, get?_ofList, get?_ofList, ← List.map_reverse, List.find?_map, Option.map_map,
    Option.map_map]
  rfl

end SortedMap

namespace History

variable {h h' : History}

/-- The active assets at a moment are decided by the sets up to it. -/
theorem assetsAt_congr {n : Nat} (heq : h'.assets.take n = h.assets.take n) :
    h'.assetsAt n = h.assetsAt n := by
  rw [assetsAt, assetsAt]
  split
  · rfl
  next hn =>
    have hget : (h'.assets.take n)[n - 1]? = (h.assets.take n)[n - 1]? := by rw [heq]
    rw [List.getElem?_take_of_lt (by omega), List.getElem?_take_of_lt (by omega)] at hget
    rw [List.getD_eq_getElem?_getD, List.getD_eq_getElem?_getD, hget]

/-- What logs say of a moment is decided by what they hold up to it. -/
theorem view_congr (story : String → ProperValue) {p : Snapshot}
    (hwrites : h'.writes.take p.changes = h.writes.take p.changes)
    (hassets : h'.assets.take p.assets = h.assets.take p.assets) :
    h'.view story p = h.view story p := by
  rw [view, view, hwrites, assetsAt_congr hassets]

/-- Recording values writes, for each noun, the literal of a marked value. -/
theorem Consistent.get?_recordValues (hc : h.Consistent) {es : List (String × Value)}
    (hnd : (es.map (·.1)).Nodup) (noun : String) :
    (SortedMap.ofList (Session.recordValues h es).writes).get? noun =
      (((es.find? fun e => e.1 = noun).map (·.2)).bind fun v =>
        if v.dirty then some v.literal else none).or ((SortedMap.ofList h.writes).get? noun) := by
  induction es generalizing h with
  | nil => rfl
  | cons e es ih =>
    obtain ⟨name, v⟩ := e
    rw [List.map_cons, List.nodup_cons] at hnd
    rw [Session.recordValues_cons]
    -- a noun stands in the row once, so that no later entry hides what is written for this one
    have hlater : name = noun → (es.find? fun e => e.1 = noun) = none := by
      rintro rfl
      rw [List.find?_eq_none]
      intro e he
      have hne : e.1 ≠ name := fun heq => hnd.1 (heq ▸ List.mem_map_of_mem (f := (·.1)) he)
      simpa using hne
    by_cases hdirty : v.dirty
    · have hwrites : (SortedMap.ofList (h.recordValue name v.literal).1.writes).get? noun =
          if name = noun then some v.literal else (SortedMap.ofList h.writes).get? noun := by
        rw [hc.writes_recordValue]
        by_cases hsame : (SortedMap.ofList h.writes).get? name = some v.literal
        · rw [if_pos hsame]
          split
          next hname => rw [← hname, hsame]
          next => rfl
        · rw [if_neg hsame, SortedMap.ofList_append_singleton, SortedMap.get?_insert]
      rw [if_pos hdirty, ih (hc.recordValue name v.literal) hnd.2, hwrites]
      by_cases hname : name = noun
      · simp [hlater hname, hname, hdirty]
      · simp [hname]
    · rw [if_neg hdirty, ih hc hnd.2]
      by_cases hname : name = noun
      · simp [hlater hname, hname, hdirty]
      · simp [hname]

end History

namespace Session

variable {s t : Session} {story : String → ProperValue}

/-- What a story that gives nouns their values sees of a session. -/
def view (s : Session) (story : String → ProperValue) : View where
  values noun := ((s.value? noun).getD (story noun).1).clearDirty
  assets := s.activeAssets

/-- The literal that the logs have for a noun at the position of the session. -/
def recorded? (s : Session) (noun : String) : Option String :=
  (SortedMap.ofList (s.history.writes.take (s.snapshot s.current).changes)).get? noun

/-! ### Restoring -/

theorem value?_restore (hc : s.Consistent) (i : Nat) (noun : String) :
    (s.restore i).value? noun =
      ((SortedMap.ofList (s.history.writes.take (s.snapshot i).changes)).get? noun).map
        Value.ofLiteral := by
  have hvalues : (s.restore i).values =
      (SortedMap.ofList (s.history.valuesAt (s.snapshot i).changes)).mapValues Value.ofLiteral :=
    SortedMap.ofList_map _ _
  rw [value?, hvalues, SortedMap.get?_mapValues, hc.history.ofList_valuesAt]

theorem Consistent.assetsAt_sorted (hc : s.Consistent) (n : Nat) :
    (s.history.assetsAt n).Pairwise (· < ·) := by
  rw [History.assetsAt]
  split
  · exact .nil
  · rw [List.getD_eq_getElem?_getD]
    cases hset : s.history.assets[n - 1]? with
    | none => exact .nil
    | some set => exact hc.assets_sorted set (List.mem_of_getElem? hset)

theorem Consistent.activeAssets_restore (hc : s.Consistent) (i : Nat) :
    (s.restore i).activeAssets = s.history.assetsAt (s.snapshot i).assets := by
  have hentries : (s.restore i).assets.entries =
      (s.history.assetsAt (s.snapshot i).assets).map fun asset => (asset, ()) :=
    SortedMap.entries_ofList (List.pairwise_map.mpr (hc.assetsAt_sorted _))
  rw [activeAssets, SortedMap.keys, hentries, List.map_map]
  exact List.map_id _

/-- Restoring a snapshot gives what the logs say of it. -/
theorem Consistent.view_restore (hc : s.Consistent) (story : String → ProperValue) (i : Nat) :
    (s.restore i).view story = s.history.view story (s.snapshot i) := by
  rw [view, History.view, hc.activeAssets_restore]
  congr 1
  funext noun
  rw [value?_restore hc]
  cases (SortedMap.ofList (s.history.writes.take (s.snapshot i).changes)).get? noun <;> rfl

/-! ### The past stays as it was -/

/-- No log is shorter at a later snapshot. -/
theorem Consistent.snapshot_follows (hc : s.Consistent) {i j : Nat} (hij : i ≤ j)
    (hj : j < s.snapshots.length) : (s.snapshot j).follows (s.snapshot i) := by
  rcases Nat.eq_or_lt_of_le hij with rfl | hlt
  · exact follows_refl _
  · have hi : i < s.snapshots.length := by omega
    have hpair := List.pairwise_iff_getElem.mp hc.ordered i j hi hj hlt
    rwa [snapshot_eq (List.getElem?_eq_getElem hi), snapshot_eq (List.getElem?_eq_getElem hj)]

/-- Cutting the logs changes nothing about the snapshots up to the position of the session. -/
theorem Consistent.view_trim (hc : s.Consistent) (story : String → ProperValue) {i : Nat}
    (hi : i ≤ s.current) :
    s.trim.history.view story (s.snapshot i) = s.history.view story (s.snapshot i) := by
  by_cases htip : s.isAtTip
  · rw [Session.trim, if_pos htip]
  · have hfollows := follows_iff.mp (hc.snapshot_follows hi hc.current_lt)
    rw [trim_of_not_isAtTip htip]
    refine History.view_congr story ?_ ?_
    · rw [hc.history.writes_truncate, List.take_take, Nat.min_eq_left hfollows.2.2]
    · rw [History.truncate, List.take_take, Nat.min_eq_left hfollows.2.1]

/-- Recording a snapshot changes nothing about those that are there. -/
theorem Consistent.view_recorded (hc : s.Consistent) (story : String → ProperValue) {p : Snapshot}
    (hp : p ∈ s.snapshots) : s.recorded.view story p = s.history.view story p := by
  obtain ⟨-, -, ws, hwrites⟩ := hc.recorded
  obtain ⟨-, hassets, hchanges⟩ := follows_iff.mp (hc.tip_follows hp)
  refine History.view_congr story ?_ ?_
  · rw [hwrites, List.take_append_of_le_length]
    rw [hc.history.length_writes]
    exact hchanges
  · rcases hc.assets_recorded with ⟨-, heq⟩ | heq
    · rw [heq]
    · rw [heq, List.take_append_of_le_length hassets]

/-! ### Being in step with the logs -/

/-- The session is ahead of its logs in marked values only. -/
structure InSync (s : Session) (story : String → ProperValue) : Prop where
  proper : ∀ noun v, s.value? noun = some v → v.Proper
  /-- A value without a mark is what the logs or else the story say. -/
  unmarked : ∀ noun v, s.value? noun = some v → v.dirty = false →
    v = ((s.recorded? noun).map Value.ofLiteral).getD (story noun).1.clearDirty
  /-- What the logs speak of has a value of its own. -/
  fresh : ∀ noun, s.value? noun = none → s.recorded? noun = none

/-- The session is in step with its logs altogether. -/
structure Settled (s : Session) (story : String → ProperValue) : Prop extends s.InSync story where
  clean : ∀ noun v, s.value? noun = some v → v.dirty = false
  assets_eq : s.activeAssets = s.history.assetsAt (s.snapshot s.current).assets

/-- Of a settled session is seen what the logs say. -/
theorem Settled.view_eq (hs : s.Settled story) :
    s.view story = s.history.view story (s.snapshot s.current) := by
  rw [view, History.view, hs.assets_eq]
  congr 1
  funext noun
  cases hvalue : s.value? noun with
  | none =>
    have hrecorded := hs.fresh noun hvalue
    rw [recorded?] at hrecorded
    rw [hrecorded]
    rfl
  | some v =>
    have hclean := hs.clean noun v hvalue
    have heq := hs.unmarked noun v hvalue hclean
    rw [recorded?] at heq
    rw [← heq, Option.getD_some, Value.clearDirty, ← hclean]

/-- What a settled session has for a noun is what is seen of it. -/
theorem Settled.ownValue_eq (hs : s.Settled story) (noun : String) :
    s.ownValue noun (story noun).1 = (s.view story).values noun := by
  show (s.value? noun).getD _ = ((s.value? noun).getD _).clearDirty
  cases hv : s.value? noun with
  | none => rfl
  | some v =>
    have hclean := hs.clean noun v hv
    rw [Option.getD_some, Option.getD_some, Value.clearDirty, ← hclean]

/-- At the start of the story, where there is nothing, a session is settled. -/
theorem settled_of_start (hvalues : s.values = {}) (hassets : s.assets = {})
    (hstart : s.snapshot s.current = .start) : s.Settled story := by
  have hnone : ∀ noun v, s.value? noun ≠ some v := by
    intro noun v
    rw [value?, hvalues]
    rintro ⟨⟩
  refine ⟨⟨fun noun v hv => absurd hv (hnone noun v), fun noun v hv => absurd hv (hnone noun v),
    fun noun _ => ?_⟩, fun noun v hv => absurd hv (hnone noun v), ?_⟩
  · rw [recorded?, hstart]
    rfl
  · rw [activeAssets, hassets, hstart]
    rfl

theorem InSync.congr (hs : s.InSync story) (hvalues : t.values = s.values)
    (hrecorded : ∀ noun, t.recorded? noun = s.recorded? noun) : t.InSync story where
  proper noun v hv := hs.proper noun v (by rwa [value?, ← hvalues])
  unmarked noun v hv hclean := by
    rw [hrecorded]
    exact hs.unmarked noun v (by rwa [value?, ← hvalues]) hclean
  fresh noun hv := by
    rw [hrecorded]
    exact hs.fresh noun (by rwa [value?, ← hvalues])

theorem Settled.congr (hs : s.Settled story) (hvalues : t.values = s.values)
    (hassets : t.assets = s.assets) (hhistory : t.history = s.history)
    (hsnapshots : t.snapshots = s.snapshots) (hcurrent : t.current = s.current) :
    t.Settled story where
  toInSync := hs.toInSync.congr hvalues fun noun => by
    rw [recorded?, recorded?, snapshot, snapshot, hhistory, hsnapshots, hcurrent]
  clean noun v hv := hs.clean noun v (by rwa [value?, ← hvalues])
  assets_eq := by
    rw [activeAssets, hassets, snapshot, hhistory, hsnapshots, hcurrent]
    exact hs.assets_eq

/-- Giving a noun a proper value that is marked, or what it had, keeps the session in step. -/
theorem InSync.insert (hs : s.InSync story) {noun : String} {v : Value} (hproper : v.Proper)
    (hold : v.dirty = false → v = (s.value? noun).getD (story noun).1.clearDirty) :
    InSync { s with values := s.values.insert noun v } story := by
  have hget : ∀ name, value? { s with values := s.values.insert noun v } name =
      if noun = name then some v else s.value? name := fun name =>
    SortedMap.get?_insert s.values noun name v
  refine ⟨fun name w hw => ?_, fun name w hw hclean => ?_, fun name hw => ?_⟩ <;> rw [hget] at hw
  · split at hw
    · rwa [← Option.some.inj hw]
    · exact hs.proper name w hw
  · split at hw
    next hname =>
      obtain rfl : v = w := Option.some.inj hw
      rw [← hname]
      refine (hold hclean).trans ?_
      cases hvalue : s.value? noun with
      | none =>
        show _ = ((s.recorded? noun).map Value.ofLiteral).getD _
        rw [hs.fresh noun hvalue]
        rfl
      | some u =>
        have hu : v = u := by rw [hold hclean, hvalue]; rfl
        exact hs.unmarked noun u hvalue (hu ▸ hclean)
    next => exact hs.unmarked name w hw hclean
  · split at hw
    · cases hw
    · exact hs.fresh name hw

theorem InSync.setValue (hs : s.InSync story) (noun : String) (v : ProperValue) :
    (s.setValue noun v.1).InSync story :=
  hs.insert (v.2.congr rfl) fun hclean => by cases hclean

/-- Changing a value through its operations keeps the session in step. -/
theorem InSync.modifyValue (hs : s.InSync story) (noun : String) (ms : List Value.Mutation) :
    (s.modifyValue noun (story noun).1 fun v => v.mutate ms).1.InSync story := by
  have hown : (s.ownValue noun (story noun).1).Proper := by
    rw [ownValue]
    cases hvalue : s.value? noun with
    | none => exact (story noun).2.congr rfl
    | some v => exact hs.proper noun v hvalue
  exact hs.insert (hown.mutate ms) Value.mutate_of_clean

/-- Cutting the logs at the position of the session leaves what they say there. -/
theorem Consistent.recorded?_trim (hc : s.Consistent) (noun : String) :
    s.trim.recorded? noun = s.recorded? noun := by
  by_cases htip : s.isAtTip
  · rw [Session.trim, if_pos htip]
  · have hsnapshot : s.trim.snapshot s.trim.current = s.snapshot s.current := by
      rw [trim_of_not_isAtTip htip]
      refine snapshot_eq ?_
      rw [List.getElem?_take_of_lt (Nat.lt_succ_self _)]
      exact getElem?_snapshots hc.current_lt
    rw [recorded?, recorded?, hsnapshot, trim_of_not_isAtTip htip, hc.history.writes_truncate,
      List.take_take, Nat.min_self]

/-! ### Taking a snapshot -/

theorem Consistent.snapshot_current (hc : s.Consistent) (htip : s.isAtTip) :
    s.snapshot s.current = s.history.tip := by
  rw [isAtTip_iff] at htip
  rw [← hc.snapshot_newest, ← htip, Nat.add_sub_cancel]

theorem Consistent.recorded?_of_isAtTip (hc : s.Consistent) (htip : s.isAtTip) (noun : String) :
    s.recorded? noun = (SortedMap.ofList s.history.writes).get? noun := by
  have hlength : (s.snapshot s.current).changes = s.history.writes.length := by
    rw [hc.snapshot_current htip, hc.history.length_writes]
    rfl
  rw [recorded?, hlength, List.take_length]

theorem isAtTip_createSnapshot (htip : s.isAtTip) : s.createSnapshot.isAtTip := by
  rw [createSnapshot_of_isAtTip htip, isAtTip_iff]
  simp

/-- At its end the logs have the literal of each marked value, and else what they had. -/
theorem Consistent.recorded?_createSnapshot (hc : s.Consistent) (htip : s.isAtTip)
    (noun : String) : s.createSnapshot.recorded? noun =
      ((s.value? noun).bind fun v => if v.dirty then some v.literal else none).or
        (s.recorded? noun) := by
  have haction := hc.history.recordAction (s.pending.getD "")
  have hwrites : ((s.history.recordAction (s.pending.getD "")).recordAssets
      s.activeAssets).1.writes = s.history.writes := by
    rcases (s.history.recordAction (s.pending.getD "")).recordAssets_cases
      s.activeAssets_sorted with ⟨-, heq⟩ | ⟨-, heq⟩ <;> rw [heq] <;> rfl
  rw [hc.createSnapshot.recorded?_of_isAtTip (isAtTip_createSnapshot htip),
    createSnapshot_of_isAtTip htip, hc.recorded?_of_isAtTip htip, Session.recorded,
    (haction.recordAssets s.activeAssets_sorted).get?_recordValues s.values.nodup_keys, hwrites]
  rfl

/-- At its end the log of assets has the active ones. -/
theorem Consistent.assetsAt_recorded (hc : s.Consistent) :
    s.recorded.assetsAt s.recorded.tip.assets = s.activeAssets := by
  simp only [History.assetsAt, History.tip, List.getD_eq_getElem?_getD]
  rcases hc.assets_recorded with ⟨hlast, hassets⟩ | hassets
  · rw [hassets, ← hlast, List.getLastD_eq_getLast?, List.getLast?_eq_getElem?]
    split
    next hnil => rw [List.eq_nil_of_length_eq_zero hnil]; rfl
    next => rfl
  · rw [hassets, List.length_append, List.length_singleton, if_neg (Nat.succ_ne_zero _),
      Nat.add_sub_cancel, List.getElem?_concat_length, Option.getD_some]

theorem value?_createSnapshot (s : Session) (noun : String) :
    s.createSnapshot.value? noun = (s.value? noun).map Value.clearDirty := by
  by_cases htip : s.isAtTip
  · rw [createSnapshot_of_isAtTip htip]
    exact SortedMap.get?_mapValues s.values Value.clearDirty noun
  · rw [createSnapshot_of_not_isAtTip htip]
    exact SortedMap.get?_mapValues s.values Value.clearDirty noun

/-- A snapshot at the end of the logs brings them up to date, if the marked values can be read back
from their literals. -/
theorem InSync.createSnapshot (hs : s.InSync story) (hc : s.Consistent) (htip : s.isAtTip)
    (htrimmed : ∀ e ∈ s.values.entries, e.2.dirty → e.2.Trimmed) :
    s.createSnapshot.Settled story := by
  refine ⟨⟨fun noun w hw => ?_, fun noun w hw _ => ?_, fun noun hw => ?_⟩, fun noun w hw => ?_, ?_⟩
  · obtain ⟨v, hv, rfl⟩ := Option.map_eq_some_iff.mp (value?_createSnapshot s noun ▸ hw)
    exact (hs.proper noun v hv).congr rfl
  · obtain ⟨v, hv, rfl⟩ := Option.map_eq_some_iff.mp (value?_createSnapshot s noun ▸ hw)
    rw [hc.recorded?_createSnapshot htip, hv]
    by_cases hdirty : v.dirty
    · have htrim : v.Trimmed := htrimmed (noun, v) (SortedMap.get?_eq_some_iff.mp hv) hdirty
      simp [hdirty, Value.ofLiteral_literal (hs.proper noun v hv) htrim]
    · rw [Bool.not_eq_true] at hdirty
      have heq := hs.unmarked noun v hv hdirty
      simp only [Option.bind_some, hdirty, Bool.false_eq_true, if_false, Option.none_or]
      rw [← heq, Value.clearDirty, ← hdirty]
  · have hv : s.value? noun = none := Option.map_eq_none_iff.mp (value?_createSnapshot s noun ▸ hw)
    rw [hc.recorded?_createSnapshot htip, hv, hs.fresh noun hv]
    rfl
  · obtain ⟨v, hv, rfl⟩ := Option.map_eq_some_iff.mp (value?_createSnapshot s noun ▸ hw)
    rfl
  · rw [hc.createSnapshot.snapshot_current (isAtTip_createSnapshot htip),
      createSnapshot_of_isAtTip htip]
    exact hc.assetsAt_recorded.symm

end Session

end Gamebook
