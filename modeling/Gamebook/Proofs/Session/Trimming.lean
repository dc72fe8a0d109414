import Gamebook.Proofs.Session.TimeTravel

/-!
# Discarding what was undone

A player who acts after stepping back discards the snapshots in front of the position. No log was
copied when a snapshot was taken: the logs are cut, and the history of a variable is cut to the
greatest length that the changes left over speak of. All the same, what is left is just what the
logs were when the snapshot was taken, but for variables that came later, which stay without a
history (`run_trim`).

An `archive` keeps the logs of a run as they were at each of its snapshots. What carries the proof
is that the logs, cut at a snapshot, are at all times what the archive has for it: entries that are
put behind do not count (`Extends`), and a later cut does not show (`truncate_truncate`).
-/

namespace Gamebook

namespace History

variable {h h' h'' : History}

/-- Logs are told apart by their entries. -/
theorem eq_of_entries (hqueue : h'.queue = h.queue) (hassets : h'.assets = h.assets)
    (htracked : h'.tracked = h.tracked) (hchanges : h'.changes = h.changes) : h' = h := by
  cases h
  cases h'
  cases hqueue
  cases hassets
  cases htracked
  cases hchanges
  rfl

/-- What a cut leaves of a variable. -/
theorem getElem?_tracked_truncate (h : History) (p : Snapshot) (id : Nat) :
    (h.truncate p).tracked[id]? = (h.tracked[id]?).map fun v =>
      { v with values := v.values.take (greatestLength (h.changes.take p.changes) id) } :=
  List.getElem?_mapIdx

/-! ### Further entries -/

/-- The logs with further variables, which have no history. -/
def withVariables (h : History) (names : List String) : History :=
  { h with tracked := h.tracked ++ names.map fun name => { name } }

@[simp]
theorem withVariables_nil (h : History) : h.withVariables [] = h := by
  rw [withVariables, List.map_nil, List.append_nil]

@[simp]
theorem withVariables_withVariables (h : History) (names more : List String) :
    (h.withVariables names).withVariables more = h.withVariables (names ++ more) := by
  rw [withVariables, withVariables, withVariables, List.map_append, List.append_assoc]

/-- Further entries, which do not count when the logs are cut; only variables that come with them
are left. -/
structure Extends (h h' : History) : Prop where
  tip_follows : h'.tip.follows h.tip
  truncate_eq : ∃ names, h'.tracked.map (·.name) = h.tracked.map (·.name) ++ names ∧
    ∀ p, h.tip.follows p → h'.truncate p = (h.truncate p).withVariables names

/-- Entries that bring no variable with them. -/
theorem Extends.of_truncate_eq (htip : h'.tip.follows h.tip)
    (hnames : h'.tracked.map (·.name) = h.tracked.map (·.name))
    (htruncate : ∀ p, h.tip.follows p → h'.truncate p = h.truncate p) : h.Extends h' where
  tip_follows := htip
  truncate_eq := by
    refine ⟨[], by rw [hnames, List.append_nil], fun p hp => ?_⟩
    rw [htruncate p hp, withVariables_nil]

theorem Extends.refl (h : History) : h.Extends h :=
  .of_truncate_eq (Session.follows_refl _) rfl fun _ _ => rfl

/-- What comes with the second lot of entries is put behind what came with the first. -/
theorem Extends.trans (hf : h.Extends h') (hs : h'.Extends h'') : h.Extends h'' := by
  obtain ⟨names, hnames, htruncate⟩ := hf.truncate_eq
  obtain ⟨more, hmore, htruncate'⟩ := hs.truncate_eq
  refine ⟨Session.follows_trans hf.tip_follows hs.tip_follows, names ++ more, ?_, fun p hp => ?_⟩
  · rw [hmore, hnames, List.append_assoc]
  · rw [htruncate' p (Session.follows_trans hp hf.tip_follows), htruncate p hp,
      withVariables_withVariables]

/-- An entry of the queue lies behind every snapshot that was taken before it. -/
theorem extends_recordAction (h : History) (entry : String) : h.Extends (h.recordAction entry) := by
  refine .of_truncate_eq ?_ rfl fun p hp => ?_
  · rw [Session.follows_iff]
    simp [tip, recordAction]
  · have hqueue : p.queue ≤ h.queue.length := (Session.follows_iff.mp hp).1
    simp only [truncate, recordAction, List.take_append_of_le_length hqueue]

/-- A set of assets is put behind, or is not recorded as nothing has changed. -/
theorem extends_recordAssets (h : History) {active : List String}
    (hsorted : active.Pairwise (· < ·)) : h.Extends (h.recordAssets active).1 := by
  rcases h.recordAssets_cases hsorted with ⟨-, heq⟩ | ⟨-, heq⟩ <;> rw [heq]
  · exact .refl h
  · refine .of_truncate_eq ?_ rfl fun p hp => ?_
    · rw [Session.follows_iff]
      simp [tip]
    · have hassets : p.assets ≤ h.assets.length := (Session.follows_iff.mp hp).2.1
      simp only [truncate, List.take_append_of_le_length hassets]

/-- A new variable shows in every cut, without a history. -/
theorem extends_register (h : History) (name : String) : h.Extends (h.register name).1 := by
  rcases h.register_cases name with ⟨v, -, -, heq⟩ | ⟨-, -, heq⟩ <;> rw [heq]
  · exact .refl h
  · refine ⟨Session.follows_refl _, [name], by simp, fun p _ => ?_⟩
    simp only [truncate, withVariables, List.mapIdx_append, List.mapIdx_cons, List.mapIdx_nil,
      List.take_nil, List.map_cons, List.map_nil]

/-- A further literal does not count: the changes in front of it speak of fewer. -/
theorem Consistent.extends_extend (hc : h.Consistent) {id : Nat} {v : Variable}
    (hv : h.tracked[id]? = some v) (literal : String) : h.Extends (h.extend id v literal) := by
  refine .of_truncate_eq ?_ ?_ fun p hp => ?_
  · rw [Session.follows_iff]
    simp [tip, History.extend]
  · refine List.ext_getElem? fun j => ?_
    rw [List.getElem?_map, List.getElem?_map, getElem?_extend hv]
    split
    next hj => rw [hj, hv]; rfl
    next => rfl
  · have hchanges : (h.changes ++ [(id, v.values.length + 1)]).take p.changes =
        h.changes.take p.changes :=
      List.take_append_of_le_length (Session.follows_iff.mp hp).2.2
    refine eq_of_entries rfl rfl (List.ext_getElem? fun j => ?_) hchanges
    rw [getElem?_tracked_truncate, getElem?_tracked_truncate, getElem?_extend hv, History.extend,
      hchanges]
    split
    next hj =>
      obtain ⟨k, hk, hlengths⟩ := hc.lengths_take hv p.changes
      rw [hj, hv, Option.map_some, Option.map_some, greatestLength_eq, hlengths, foldl_max_range',
        List.take_append_of_le_length hk]
    next => rfl

/-- A value brings its variable with it, if that is new, and one literal if it has changed. -/
theorem Consistent.extends_recordValue (hc : h.Consistent) (name literal : String) :
    h.Extends (h.recordValue name literal).1 := by
  obtain ⟨hreg, -, v, hv, -⟩ := hc.register name
  rw [recordValue_eq hv]
  split
  · exact h.extends_register name
  · exact (h.extends_register name).trans (hreg.extends_extend hv literal)

/-- The dirty values of a game are recorded one by one. -/
theorem Consistent.extends_recordValues (hc : h.Consistent) (es : List (String × Value)) :
    h.Extends (Session.recordValues h es) := by
  induction es generalizing h with
  | nil => exact .refl h
  | cons e es ih =>
    obtain ⟨noun, v⟩ := e
    rw [Session.recordValues_cons]
    split
    · exact (hc.extends_recordValue noun v.literal).trans (ih (hc.recordValue noun v.literal))
    · exact ih hc

/-! ### Cuts -/

/-- Logs that are cut at their ends stay what they are. -/
theorem Consistent.truncate_tip (hc : h.Consistent) : h.truncate h.tip = h := by
  refine eq_of_entries List.take_length List.take_length (List.ext_getElem? fun j => ?_)
    List.take_length
  rw [getElem?_tracked_truncate]
  cases hv : h.tracked[j]? with
  | none => rfl
  | some v =>
    rw [Option.map_some, tip, List.take_length, greatestLength_eq, hc.lengths_eq j v hv,
      foldl_max_range', List.take_length]

/-- The greatest of more numbers is no smaller. -/
theorem foldl_max_mono {ms ns : List Nat} (hpre : ms <+: ns) : ms.foldl max 0 ≤ ns.foldl max 0 := by
  obtain ⟨rest, rfl⟩ := hpre
  rw [List.foldl_append]
  generalize ms.foldl max 0 = m
  induction rest generalizing m with
  | nil => exact Nat.le_refl m
  | cons n rest ih => exact (Nat.le_max_left m n).trans (ih (max m n))

/-- Fewer changes speak of shorter histories. -/
theorem greatestLength_take_le (changes : List (Nat × Nat)) (id : Nat) {m n : Nat} (hmn : m ≤ n) :
    greatestLength (changes.take m) id ≤ greatestLength (changes.take n) id := by
  have hpre : changes.take m <+: changes.take n := List.take_prefix_take_left hmn
  rw [greatestLength_eq, greatestLength_eq]
  exact foldl_max_mono ((hpre.filter _).map _)

/-- Of two cuts only the nearer one shows. -/
theorem truncate_truncate (h : History) {p q : Snapshot} (hpq : q.follows p) :
    (h.truncate q).truncate p = h.truncate p := by
  obtain ⟨hqueue, hassets, hchanges⟩ := Session.follows_iff.mp hpq
  have hcut : ∀ {α : Type} (l : List α) {m n : Nat}, m ≤ n → (l.take n).take m = l.take m :=
    fun l m n hmn => by rw [List.take_take, Nat.min_eq_left hmn]
  refine eq_of_entries (hcut _ hqueue) (hcut _ hassets) (List.ext_getElem? fun j => ?_)
    (hcut _ hchanges)
  have hchanges' : (h.truncate q).changes.take p.changes = h.changes.take p.changes :=
    hcut _ hchanges
  rw [getElem?_tracked_truncate, getElem?_tracked_truncate, getElem?_tracked_truncate, hchanges',
    Option.map_map]
  congr 1
  funext v
  rw [Function.comp_apply, hcut _ (greatestLength_take_le h.changes j hchanges)]

/-- The logs, cut at a snapshot, are those of the past, but for variables that came later. -/
def Recalls (h : History) (p : Snapshot) (past : History) : Prop :=
  ∃ names, h.tracked.map (·.name) = past.tracked.map (·.name) ++ names ∧
    h.truncate p = past.withVariables names

/-- Logs recall themselves at their ends. -/
theorem Consistent.recalls_tip (hc : h.Consistent) : h.Recalls h.tip h :=
  ⟨[], by simp, by rw [hc.truncate_tip, withVariables_nil]⟩

/-- What is recalled is still recalled after further entries. -/
theorem Recalls.extend {p : Snapshot} {past : History} (hr : h.Recalls p past)
    (hp : h.tip.follows p) (he : h.Extends h') : h'.Recalls p past := by
  obtain ⟨names, hnames, hpast⟩ := hr
  obtain ⟨more, hmore, htruncate⟩ := he.truncate_eq
  refine ⟨names ++ more, ?_, ?_⟩
  · rw [hmore, hnames, List.append_assoc]
  · rw [htruncate p hp, hpast, withVariables_withVariables]

/-- What is recalled is still recalled after a cut, if the cut is not made in front of it. -/
theorem Recalls.truncate {p q : Snapshot} {past : History} (hr : h.Recalls p past)
    (hpq : q.follows p) : (h.truncate q).Recalls p past := by
  obtain ⟨names, hnames, hpast⟩ := hr
  exact ⟨names, by rw [map_name_truncate, hnames], by rw [h.truncate_truncate hpq, hpast]⟩

end History

namespace Session

variable {s t : Session}

/-! ### Archives -/

/-- The archive after an operation: a new snapshot puts the logs into it, and snapshots that are
discarded take theirs with them. -/
def archiveAfter (s : Session) (kept : List History) : Operation → List History
  | .createSnapshot => if s.isAtTip then kept ++ [s.createSnapshot.history] else kept
  | .trim => kept.take (s.current + 1)
  | .reset => [{}]
  | _ => kept

/-- The logs as they were at each snapshot after some operations. -/
def archive (s : Session) (kept : List History) : List Operation → List History
  | [] => kept
  | op :: ops => (s.apply op).archive (s.archiveAfter kept op) ops

/-- The first snapshots of a row that is cut. -/
theorem snapshot_take {i n : Nat} (hi : i < n) :
    (s.snapshots.take n).getD i .start = s.snapshot i := by
  rw [snapshot, List.getD_eq_getElem?_getD, List.getD_eq_getElem?_getD, List.getElem?_take_of_lt hi]

/-- There is an entry for each snapshot, and the logs recall it. -/
structure Archived (s : Session) (kept : List History) : Prop where
  length_eq : kept.length = s.snapshots.length
  recalls : ∀ i past, kept[i]? = some past → s.history.Recalls (s.snapshot i) past

/-- A new session has one snapshot, of empty logs. -/
theorem archived_new (name : String) : Archived { name } [{}] where
  length_eq := rfl
  recalls i past hpast := by
    obtain ⟨rfl, rfl⟩ : i = 0 ∧ past = {} := by
      rw [List.getElem?_singleton] at hpast
      split at hpast
      next hi => exact ⟨hi, (Option.some.inj hpast).symm⟩
      next => cases hpast
    exact History.consistent_empty.recalls_tip

/-- The archive is about the logs and the snapshots only. -/
theorem Archived.congr {kept : List History} (ha : s.Archived kept)
    (hhistory : t.history = s.history) (hsnapshots : t.snapshots = s.snapshots) :
    t.Archived kept where
  length_eq := hsnapshots ▸ ha.length_eq
  recalls i past hpast := by
    rw [snapshot, hhistory, hsnapshots]
    exact ha.recalls i past hpast

/-- What a new snapshot records is the action, the assets and the values, in this order. -/
theorem Consistent.extends_recorded (hc : s.Consistent) : s.history.Extends s.recorded := by
  have haction := hc.history.recordAction (s.pending.getD "")
  exact ((s.history.extends_recordAction _).trans
    (History.extends_recordAssets _ s.activeAssets_sorted)).trans
      ((haction.recordAssets s.activeAssets_sorted).extends_recordValues _)

/-- The older snapshots are recalled as before, and the new one recalls the logs as they are. -/
theorem Archived.createSnapshot {kept : List History} (ha : s.Archived kept) (hc : s.Consistent) :
    s.createSnapshot.Archived (s.archiveAfter kept .createSnapshot) := by
  by_cases htip : s.isAtTip
  · rw [archiveAfter, if_pos htip, createSnapshot_of_isAtTip htip]
    refine ⟨by simp [ha.length_eq], fun i past hpast => ?_⟩
    rcases Nat.lt_trichotomy i kept.length with hlt | heq | hgt
    · have hi : i < s.snapshots.length := ha.length_eq ▸ hlt
      rw [List.getElem?_append_left hlt] at hpast
      have hsnapshot : (s.snapshots ++ [s.recorded.tip]).getD i .start = s.snapshot i := by
        rw [snapshot, List.getD_eq_getElem?_getD, List.getD_eq_getElem?_getD,
          List.getElem?_append_left hi]
      have hfollows := hc.tip_follows (List.mem_of_getElem? (getElem?_snapshots hi))
      rw [snapshot, hsnapshot]
      exact (ha.recalls i past hpast).extend hfollows hc.extends_recorded
    · obtain rfl : s.recorded = past := by simpa [heq] using hpast
      have hsnapshot : (s.snapshots ++ [s.recorded.tip]).getD i .start = s.recorded.tip := by
        rw [heq, ha.length_eq]
        simp
      rw [snapshot, hsnapshot]
      exact hc.recorded.1.recalls_tip
    · rw [List.getElem?_eq_none (by simpa using Nat.succ_le_of_lt hgt)] at hpast
      cases hpast
  · rw [archiveAfter, if_neg htip, createSnapshot_of_not_isAtTip htip]
    exact ha.congr rfl rfl

/-- The snapshots that are kept lie in front of the cut. -/
theorem Archived.trim {kept : List History} (ha : s.Archived kept) (hc : s.Consistent) :
    s.trim.Archived (s.archiveAfter kept .trim) := by
  have hlt := hc.current_lt
  have hlength := ha.length_eq
  rw [archiveAfter]
  by_cases htip : s.isAtTip
  · rw [Session.trim, if_pos htip, List.take_of_length_le (by rw [hlength, isAtTip_iff.mp htip])]
    exact ha
  · rw [trim_of_not_isAtTip htip]
    refine ⟨by simp [hlength], fun i past hpast => ?_⟩
    rw [List.getElem?_take] at hpast
    split at hpast
    next hi =>
      have hrecalls := (ha.recalls i past hpast).truncate (hc.snapshot_follows (by omega) hlt)
      rwa [← snapshot_take hi] at hrecalls
    next => cases hpast

/-- An operation that neither takes nor discards snapshots leaves the logs and snapshots alone. -/
theorem Archived.move {kept : List History} (ha : s.Archived kept) (m : Move) :
    (s.apply m.operation).Archived kept := by
  rw [apply_operation]
  exact of_getD ha fun t ht => ha.congr (history_move? ht).1 (history_move? ht).2

/-- Each operation keeps the archive in step with the logs. -/
theorem Archived.apply {kept : List History} (ha : s.Archived kept) (hc : s.Consistent)
    (op : Operation) : (s.apply op).Archived (s.archiveAfter kept op) := by
  cases op with
  | modifyValue | setValue | setAsset | setAction | rename => exact ha.congr rfl rfl
  | createSnapshot => exact ha.createSnapshot hc
  | loadSnapshot index => exact ha.move (.load index)
  | undo => exact ha.move .undo
  | redo => exact ha.move .redo
  | trim => exact ha.trim hc
  | addBookmark description =>
    obtain ⟨bookmarks, heq⟩ := s.apply_addBookmark description
    rw [heq]
    exact ha.congr rfl rfl
  | addBookmarkAt queue description =>
    obtain ⟨bookmarks, heq⟩ := s.apply_addBookmarkAt queue description
    rw [heq]
    exact ha.congr rfl rfl
  | reset => exact archived_new s.name

/-- So does any run. -/
theorem Archived.run {kept : List History} (ha : s.Archived kept) (hc : s.Consistent)
    (ops : List Operation) : (s.run ops).Archived (s.archive kept ops) := by
  induction ops generalizing s kept with
  | nil => exact ha
  | cons op ops ih => exact ih (ha.apply hc op) (hc.apply op)

/-! ### Restoring after a cut -/

/-- The values at a snapshot are the last ones that were written for each noun up to there. -/
theorem Consistent.values_restore (hc : s.Consistent) (i : Nat) : (s.restore i).values =
    (SortedMap.ofList (s.history.writes.take (s.snapshot i).changes)).mapValues
      Value.ofLiteral := by
  rw [← hc.history.ofList_valuesAt]
  exact SortedMap.ofList_map _ _

/-- What a snapshot restores is decided by the entries up to it. -/
theorem Consistent.restore_congr (hs : s.Consistent) (ht : t.Consistent) {i : Nat}
    (hsnapshot : t.snapshot i = s.snapshot i)
    (hwrites : t.history.writes.take (s.snapshot i).changes =
      s.history.writes.take (s.snapshot i).changes)
    (hassets : t.history.assets.take (s.snapshot i).assets =
      s.history.assets.take (s.snapshot i).assets) :
    (t.restore i).values = (s.restore i).values ∧ (t.restore i).assets = (s.restore i).assets := by
  constructor
  · rw [ht.values_restore, hs.values_restore, hsnapshot, hwrites]
  · show SortedMap.ofList ((t.history.assetsAt (t.snapshot i).assets).map _) =
      SortedMap.ofList ((s.history.assetsAt (s.snapshot i).assets).map _)
    rw [hsnapshot, History.assetsAt_congr hassets]

/-- A snapshot behind the start of the story can be loaded. -/
theorem loadSnapshot?_of_lt {i : Nat} (hpos : 1 ≤ i) (hi : i < s.snapshots.length) :
    s.loadSnapshot? i = some { s.restore i with current := i } := by
  rw [loadSnapshot?, if_neg (by omega)]

theorem snapshot_trim {i : Nat} (hi : i ≤ s.current) : s.trim.snapshot i = s.snapshot i := by
  rw [snapshot, snapshots_trim, snapshot_take (by omega)]

/-- The snapshots that are left restore what they did before. -/
theorem Consistent.restore_trim (hc : s.Consistent) {i : Nat} (hi : i ≤ s.current) :
    (s.trim.restore i).values = (s.restore i).values ∧
      (s.trim.restore i).assets = (s.restore i).assets := by
  by_cases htip : s.isAtTip
  · rw [Session.trim, if_pos htip]
    exact ⟨rfl, rfl⟩
  · have hfollows := follows_iff.mp (hc.snapshot_follows hi hc.current_lt)
    refine hc.restore_congr hc.trim (snapshot_trim hi) ?_ ?_
    · rw [trim_of_not_isAtTip htip, hc.history.writes_truncate, List.take_take,
        Nat.min_eq_left hfollows.2.2]
    · rw [trim_of_not_isAtTip htip, History.truncate, List.take_take, Nat.min_eq_left hfollows.2.1]

/-- After a cut the snapshot at hand is the newest. -/
theorem Consistent.isAtTip_trim (hc : s.Consistent) : s.trim.isAtTip := by
  have hlt := hc.current_lt
  rw [isAtTip_iff, current_trim, snapshots_trim, List.length_take]
  omega

/-- Snapshots are numbered by the actions in front of them. -/
theorem Consistent.queue_snapshot (hc : s.Consistent) {i : Nat} (hi : i < s.snapshots.length) :
    (s.snapshot i).queue = i :=
  hc.queue_eq i _ (getElem?_snapshots hi)

/-! ### The past of a branch point -/

/-- Discarding what was undone brings the logs back to what they were when the snapshot at hand was
taken; only variables that came later stay, without a history. The snapshots up to the one at hand
are kept, and the bookmarks on actions up to it; all else stays as it is, and every snapshot that
is kept restores what it did. Where nothing was undone, nothing is done. -/
theorem run_trim (name : String) (ops : List Operation) :
    let s := run { name } ops
    (s.isAtTip → s.trim = s) ∧
    (¬ s.isAtTip → ∃ past names,
      (archive { name } [{}] ops)[s.current]? = some past ∧
      s.history.tracked.map (·.name) = past.tracked.map (·.name) ++ names ∧
      s.trim = { s with
        history := past.withVariables names
        snapshots := s.snapshots.take (s.current + 1)
        bookmarks := s.bookmarks.filterKeys fun queue => queue < s.current } ∧
      s.trim.isAtTip ∧
      ∀ j, 1 ≤ j → j ≤ s.current → ∃ t u, s.loadSnapshot? j = some t ∧
        s.trim.loadSnapshot? j = some u ∧ u.values = t.values ∧ u.assets = t.assets) := by
  intro s
  have hc : s.Consistent := (consistent_new name).run ops
  have ha : s.Archived (archive { name } [{}] ops) :=
    (archived_new name).run (consistent_new name) ops
  have hlt := hc.current_lt
  refine ⟨fun htip => by rw [Session.trim, if_pos htip], fun htip => ?_⟩
  have hkept : s.current < (archive { name } [{}] ops).length := by
    rw [ha.length_eq]
    exact hlt
  have hpast := List.getElem?_eq_getElem hkept
  obtain ⟨names, hnames, htruncate⟩ := ha.recalls _ _ hpast
  refine ⟨_, names, hpast, hnames, ?_, hc.isAtTip_trim, fun j hpos hj => ?_⟩
  · rw [trim_of_not_isAtTip htip, htruncate, hc.queue_snapshot hlt]
  · have hlength : j < s.trim.snapshots.length := by
      rw [snapshots_trim, List.length_take]
      omega
    exact ⟨_, _, loadSnapshot?_of_lt hpos (by omega), loadSnapshot?_of_lt hpos hlength,
      hc.restore_trim hj⟩

/-- A lamp is lit and turned up, a door is opened, and the player steps back twice. -/
def doorRun : List Operation :=
  [.setValue "lamp" { integer := 1 }, .createSnapshot,
    .setValue "lamp" { integer := 2 }, .createSnapshot,
    .setValue "door" { atoms := ["open"] }, .createSnapshot, .addBookmark none, .undo, .undo]

/-- Discarding what was undone leaves the logs of the lit lamp, and a door without a history. -/
theorem run_trim_doorRun : ¬ (run { name := "lamp" } doorRun).isAtTip ∧ ∃ past,
    (archive { name := "lamp" } [{}] doorRun)[1]? = some past ∧
      past.tracked = [⟨"lamp", ["#1"]⟩] ∧
      (run { name := "lamp" } doorRun).trim.history = past.withVariables ["door"] := by
  have htip : ¬ (run { name := "lamp" } doorRun).isAtTip := by decide +kernel
  obtain ⟨past, names, hpast, hnames, heq, -⟩ := (run_trim "lamp" doorRun).2 htip
  have hcurrent : (run { name := "lamp" } doorRun).current = 1 := by decide +kernel
  have htracked : ((archive { name := "lamp" } [{}] doorRun)[1]?).map (·.tracked) =
      some [⟨"lamp", ["#1"]⟩] := by decide +kernel
  have hvariables : (run { name := "lamp" } doorRun).history.tracked.map (·.name) =
      ["lamp", "door"] := by decide +kernel
  rw [hcurrent] at hpast
  rw [hpast, Option.map_some, Option.some.injEq] at htracked
  obtain rfl : ["door"] = names := by
    rw [hvariables, htracked] at hnames
    exact (List.cons.inj hnames).2
  exact ⟨htip, past, hpast, htracked, by rw [heq]⟩

end Session

end Gamebook
