import Gamebook.Proofs.Session.Recording
import Gamebook.Session

/-!
# The invariant of sessions

A session keeps a row of snapshots, a position in it, logs, and bookmarks, and all of them must fit
together: `Session.Consistent`. The invariant holds at the start of the story (`consistent_new`), is
kept by each operation (`Consistent.apply`), and so by every run of operations (`Consistent.run`).
-/

namespace Gamebook.Session

/-! ### What can be done to a session -/

/-- An operation on a session. A change of a value may be any function of it. -/
inductive Operation where
  | modifyValue (noun : String) (default : Value) (change : Value → Value × Bool)
  | setValue (noun : String) (v : Value)
  | setAsset (asset : String) (on : Bool)
  | setAction (noun verb : String)
  | createSnapshot
  | loadSnapshot (index : Nat)
  | undo
  | redo
  | trim
  | addBookmark (description : Option String)
  | addBookmarkAt (queue : Nat) (description : Option String)
  | rename (name : String)
  | reset

/-- The session after an operation. One that is refused leaves it as it was. -/
def apply (s : Session) : Operation → Session
  | .modifyValue noun default change => (s.modifyValue noun default change).1
  | .setValue noun v => s.setValue noun v
  | .setAsset asset on => s.setAsset asset on
  | .setAction noun verb => s.setAction noun verb
  | .createSnapshot => s.createSnapshot
  | .loadSnapshot index => (s.loadSnapshot? index).getD s
  | .undo => s.undo?.getD s
  | .redo => s.redo?.getD s
  | .trim => s.trim
  | .addBookmark description => ((s.addBookmark? description).map (·.1)).getD s
  | .addBookmarkAt queue description => (s.addBookmarkAt? queue description).getD s
  | .rename name => s.rename name
  | .reset => s.reset

/-- The session after some operations. -/
def run (s : Session) (ops : List Operation) : Session :=
  ops.foldl apply s

/-! ### The invariant -/

/-- The parts of a session fit together. -/
structure Consistent (s : Session) : Prop where
  history : s.history.Consistent
  /-- The asset sets are sorted and without repeats. -/
  assets_sorted : ∀ set ∈ s.history.assets, set.Pairwise (· < ·)
  /-- The first snapshot is the start of the story. -/
  first : s.snapshots[0]? = some .start
  current_lt : s.current < s.snapshots.length
  /-- Each snapshot has one action more than the one before. -/
  queue_eq : ∀ i (p : Snapshot), s.snapshots[i]? = some p → p.queue = i
  /-- No log is shorter at a later snapshot. -/
  ordered : s.snapshots.Pairwise fun p q : Snapshot => q.follows p = true
  /-- The newest snapshot has all of the logs. -/
  newest : s.snapshots.getLast? = some s.history.tip
  bookmarks_lt : ∀ e ∈ s.bookmarks.entries, e.1 < s.history.queue.length

/-- A new session has one snapshot, of empty logs, and no bookmark. -/
theorem consistent_new (name : String) : Consistent { name } where
  history := History.consistent_empty
  assets_sorted := by simp
  first := rfl
  current_lt := by simp
  queue_eq i p hp := by
    rw [List.getElem?_singleton] at hp
    split at hp
    next hi => rw [hi, ← Option.some.inj hp]; rfl
    next => simp at hp
  ordered := List.pairwise_singleton _ _
  newest := rfl
  bookmarks_lt := by simp

variable {s t : Session}

/-- The invariant is about the logs, the snapshots, the position and the bookmarks only. -/
theorem Consistent.congr (hc : s.Consistent) (hhistory : t.history = s.history)
    (hsnapshots : t.snapshots = s.snapshots) (hcurrent : t.current < s.snapshots.length)
    (hbookmarks : t.bookmarks = s.bookmarks) : t.Consistent where
  history := hhistory ▸ hc.history
  assets_sorted := hhistory ▸ hc.assets_sorted
  first := hsnapshots ▸ hc.first
  current_lt := hsnapshots ▸ hcurrent
  queue_eq := hsnapshots ▸ hc.queue_eq
  ordered := hsnapshots ▸ hc.ordered
  newest := by rw [hsnapshots, hhistory, hc.newest]
  bookmarks_lt := by rw [hbookmarks, hhistory]; exact hc.bookmarks_lt

/-! ### Snapshots within the logs -/

/-- None of the three lengths is smaller. -/
theorem follows_iff {p q : Snapshot} :
    q.follows p ↔ p.queue ≤ q.queue ∧ p.assets ≤ q.assets ∧ p.changes ≤ q.changes := by
  simp [Snapshot.follows, and_assoc]

theorem follows_refl (p : Snapshot) : p.follows p := by
  simp [Snapshot.follows]

theorem follows_trans {p q r : Snapshot} (hpq : q.follows p) (hqr : r.follows q) :
    r.follows p := by
  rw [follows_iff] at *
  omega

/-- No snapshot speaks of more than there is in the logs. -/
theorem Consistent.tip_follows (hc : s.Consistent) {p : Snapshot} (hp : p ∈ s.snapshots) :
    s.history.tip.follows p := by
  obtain ⟨ps, heq⟩ := List.getLast?_eq_some_iff.mp hc.newest
  rw [heq, List.mem_append, List.mem_singleton] at hp
  rcases hp with hp | rfl
  · have hpair := hc.ordered
    rw [heq, List.pairwise_append] at hpair
    exact hpair.2.2 p hp _ (List.mem_singleton_self _)
  · exact follows_refl _

/-- The snapshot at a position is the one that stands there in the row. -/
theorem snapshot_eq {i : Nat} {p : Snapshot} (hp : s.snapshots[i]? = some p) :
    s.snapshot i = p := by
  rw [snapshot, List.getD_eq_getElem?_getD, hp, Option.getD_some]

theorem getElem?_snapshots {i : Nat} (hi : i < s.snapshots.length) :
    s.snapshots[i]? = some (s.snapshot i) := by
  rw [snapshot, List.getD_eq_getElem?_getD, List.getElem?_eq_getElem hi, Option.getD_some]

/-- There is a snapshot behind each action, and one in front of all. -/
theorem Consistent.length_snapshots (hc : s.Consistent) :
    s.snapshots.length = s.history.queue.length + 1 := by
  have hpos : 0 < s.snapshots.length := Nat.zero_lt_of_lt hc.current_lt
  have hlast : s.snapshots[s.snapshots.length - 1]? = some s.history.tip := by
    rw [← List.getLast?_eq_getElem?]
    exact hc.newest
  have hqueue := hc.queue_eq _ _ hlast
  simp only [History.tip] at hqueue
  omega

/-- The newest snapshot is the tip of the logs. -/
theorem Consistent.snapshot_newest (hc : s.Consistent) :
    s.snapshot (s.snapshots.length - 1) = s.history.tip :=
  snapshot_eq (by rw [← List.getLast?_eq_getElem?]; exact hc.newest)

/-- At the tip the position is that of the newest snapshot. -/
theorem isAtTip_iff : s.isAtTip ↔ s.current + 1 = s.snapshots.length := by
  simp [isAtTip]

/-- The snapshot right after an action is found by the action's position. -/
theorem Consistent.snapshotForQueue?_eq (hc : s.Consistent) {queue : Nat}
    (hqueue : queue < s.history.queue.length) :
    s.snapshotForQueue? queue = some (queue + 1) := by
  have hlt : queue + 1 < s.snapshots.length := by
    rw [hc.length_snapshots]
    omega
  rw [snapshotForQueue?, List.findIdx?_eq_some_iff_getElem]
  refine ⟨hlt, ?_, fun j hj => ?_⟩
  · rw [hc.queue_eq (queue + 1) _ (List.getElem?_eq_getElem hlt), beq_self_eq_true]
  · rw [hc.queue_eq j _ (List.getElem?_eq_getElem (by omega))]
    simp only [beq_iff_eq]
    omega

/-! ### Recording a snapshot -/

/-- A value that is not dirty is passed over. -/
theorem recordValues_cons (h : History) (noun : String) (v : Value) (es : List (String × Value)) :
    recordValues h ((noun, v) :: es) =
      recordValues (if v.dirty then (h.recordValue noun v.literal).1 else h) es :=
  rfl

/-- Recording values keeps the logs consistent; it writes at the end, and only values. -/
theorem recordValues_spec {h : History} (hc : h.Consistent) (es : List (String × Value)) :
    (recordValues h es).Consistent ∧ (recordValues h es).queue = h.queue ∧
      (recordValues h es).assets = h.assets ∧
      ∃ ws, (recordValues h es).writes = h.writes ++ ws := by
  induction es generalizing h with
  | nil => exact ⟨hc, rfl, rfl, [], by simp [recordValues]⟩
  | cons e es ih =>
    obtain ⟨noun, v⟩ := e
    rw [recordValues_cons]
    split
    · obtain ⟨hrec, hqueue, hassets, ws, hwrites⟩ := ih (hc.recordValue noun v.literal)
      obtain ⟨hqueue', hassets'⟩ := h.recordValue_queue_assets noun v.literal
      refine ⟨hrec, hqueue.trans hqueue', hassets.trans hassets', ?_⟩
      rw [hc.writes_recordValue] at hwrites
      split at hwrites
      · exact ⟨ws, hwrites⟩
      · exact ⟨_, hwrites.trans (List.append_assoc ..)⟩
    · exact ih hc

/-- The logs after a snapshot is taken at the tip. -/
def recorded (s : Session) : History :=
  recordValues ((s.history.recordAction (s.pending.getD "")).recordAssets s.activeAssets).1
    s.values.entries

/-- At the tip the logs get what is new, and a snapshot of them is put at the end. -/
theorem createSnapshot_of_isAtTip (htip : s.isAtTip) : s.createSnapshot =
    { s with
      values := s.values.mapValues .clearDirty
      history := s.recorded
      snapshots := s.snapshots ++ [s.recorded.tip]
      current := s.snapshots.length
      pending := none } := by
  rw [createSnapshot, if_pos htip]
  rfl

/-- Behind the tip nothing is recorded: the position moves to the next snapshot, and the values are
taken for recorded. -/
theorem createSnapshot_of_not_isAtTip (htip : ¬ s.isAtTip) : s.createSnapshot =
    { s with
      values := s.values.mapValues .clearDirty
      current := s.current + 1
      pending := none } := by
  rw [createSnapshot, if_neg htip]

/-- Assets are listed in order, and none of them twice. -/
theorem activeAssets_sorted (s : Session) : s.activeAssets.Pairwise (· < ·) :=
  List.pairwise_map.mpr s.assets.sorted

/-- What recording a snapshot does to the logs. -/
theorem Consistent.recorded (hc : s.Consistent) :
    s.recorded.Consistent ∧ s.recorded.queue = s.history.queue ++ [s.pending.getD ""] ∧
      ∃ ws, s.recorded.writes = s.history.writes ++ ws := by
  have haction := hc.history.recordAction (s.pending.getD "")
  obtain ⟨hrec, hqueue, -, ws, hwrites⟩ :=
    recordValues_spec (haction.recordAssets s.activeAssets_sorted) s.values.entries
  refine ⟨hrec, hqueue.trans ?_, ws, hwrites.trans ?_⟩
  all_goals
    rcases (s.history.recordAction (s.pending.getD "")).recordAssets_cases
      s.activeAssets_sorted with ⟨-, heq⟩ | ⟨-, heq⟩ <;> rw [heq] <;> rfl

/-- The active assets are recorded if they are not the ones recorded last. -/
theorem Consistent.assets_recorded (hc : s.Consistent) :
    (s.history.assets.getLastD [] = s.activeAssets ∧ s.recorded.assets = s.history.assets) ∨
      s.recorded.assets = s.history.assets ++ [s.activeAssets] := by
  have haction := hc.history.recordAction (s.pending.getD "")
  have hassets : s.recorded.assets =
      ((s.history.recordAction (s.pending.getD "")).recordAssets s.activeAssets).1.assets :=
    (recordValues_spec (haction.recordAssets s.activeAssets_sorted) s.values.entries).2.2.1
  rw [hassets]
  rcases (s.history.recordAction (s.pending.getD "")).recordAssets_cases s.activeAssets_sorted with
    ⟨hlast, heq⟩ | ⟨-, heq⟩
  · exact .inl ⟨hlast, by rw [heq]; rfl⟩
  · exact .inr (by rw [heq]; rfl)

/-- The logs only grow. -/
theorem Consistent.recorded_follows (hc : s.Consistent) :
    s.recorded.tip.follows s.history.tip := by
  obtain ⟨hrec, hqueue, ws, hwrites⟩ := hc.recorded
  rw [follows_iff]
  refine ⟨?_, ?_, ?_⟩
  · simp [History.tip, hqueue]
  · rcases hc.assets_recorded with ⟨-, hassets⟩ | hassets <;> simp [History.tip, hassets]
  · have hlength := congrArg List.length hwrites
    rw [hrec.length_writes, List.length_append, hc.history.length_writes] at hlength
    simp only [History.tip]
    omega

/-! ### Steps -/

/-- A snapshot at the tip has one action more than the last, and the logs in full; behind the tip
only the position changes. -/
theorem Consistent.createSnapshot (hc : s.Consistent) : s.createSnapshot.Consistent := by
  by_cases htip : s.isAtTip
  · rw [createSnapshot_of_isAtTip htip]
    obtain ⟨hrec, hqueue, -⟩ := hc.recorded
    have hlength := hc.length_snapshots
    refine ⟨hrec, ?_, ?_, ?_, ?_, ?_, List.getLast?_concat, ?_⟩
    · intro set hset
      rcases hc.assets_recorded with ⟨-, hassets⟩ | hassets <;> rw [hassets] at hset
      · exact hc.assets_sorted set hset
      · rcases List.mem_append.mp hset with hset | hset
        · exact hc.assets_sorted set hset
        · rw [List.mem_singleton.mp hset]
          exact s.activeAssets_sorted
    · rw [List.getElem?_append_left (by omega)]
      exact hc.first
    · simp
    · intro i p hp
      rcases Nat.lt_or_ge i s.snapshots.length with hlt | hge
      · exact hc.queue_eq i p (by rwa [List.getElem?_append_left hlt] at hp)
      · obtain ⟨rfl, rfl⟩ : i = s.snapshots.length ∧ p = s.recorded.tip := by
          rw [List.getElem?_append_right hge, List.getElem?_singleton] at hp
          split at hp
          · exact ⟨by omega, by simpa using hp.symm⟩
          · simp at hp
        simp only [History.tip, hqueue, List.length_append, List.length_singleton]
        omega
    · refine List.pairwise_append.mpr ⟨hc.ordered, List.pairwise_singleton _ _, ?_⟩
      intro p hp q hq
      rw [List.mem_singleton.mp hq]
      exact follows_trans (hc.tip_follows hp) hc.recorded_follows
    · intro e he
      have hlt := hc.bookmarks_lt e he
      simp only [hqueue, List.length_append, List.length_singleton]
      omega
  · have hlt := hc.current_lt
    rw [isAtTip_iff] at htip
    rw [createSnapshot_of_not_isAtTip (by rwa [isAtTip_iff])]
    exact hc.congr rfl rfl (show s.current + 1 < s.snapshots.length by omega) rfl

/-- The logs at a snapshot, cut to its lengths, are as long as it says. -/
theorem Consistent.tip_truncate (hc : s.Consistent) {p : Snapshot} (hp : p ∈ s.snapshots) :
    (s.history.truncate p).tip = p := by
  have hfollows := hc.tip_follows hp
  rw [follows_iff] at hfollows
  obtain ⟨queue, assets, changes⟩ := p
  simp only [History.tip, History.truncate, List.length_take, Snapshot.mk.injEq] at hfollows ⊢
  omega

/-- What was undone is discarded with the bookmarks on it. -/
theorem trim_of_not_isAtTip (htip : ¬ s.isAtTip) : s.trim =
    { s with
      snapshots := s.snapshots.take (s.current + 1)
      history := s.history.truncate (s.snapshot s.current)
      bookmarks := s.bookmarks.filterKeys fun queue => queue < (s.snapshot s.current).queue } := by
  rw [trim, if_neg htip]

/-- The snapshot at hand becomes the newest, and the logs are cut to its lengths. -/
theorem Consistent.trim (hc : s.Consistent) : s.trim.Consistent := by
  by_cases htip : s.isAtTip
  · rw [Session.trim, if_pos htip]
    exact hc
  · rw [trim_of_not_isAtTip htip]
    have hlt := hc.current_lt
    have hcurrent := getElem?_snapshots hlt
    have hmem := List.mem_of_getElem? hcurrent
    have htrunc := hc.tip_truncate hmem
    refine ⟨hc.history.truncate _, ?_, ?_, ?_, ?_, ?_, ?_, ?_⟩
    · exact fun set hset => hc.assets_sorted set (List.mem_of_mem_take hset)
    · rw [List.getElem?_take_of_lt (by omega)]
      exact hc.first
    · simp only [List.length_take]
      omega
    · intro i p hp
      refine hc.queue_eq i p ?_
      rw [List.getElem?_take] at hp
      split at hp
      · exact hp
      · simp at hp
    · exact hc.ordered.take
    · rw [List.getLast?_take, if_neg (by omega), Nat.add_sub_cancel, hcurrent, htrunc]
      rfl
    · intro e he
      have hbelow : e.1 < (s.snapshot s.current).queue := by
        simpa using (List.mem_filter.mp he).2
      have hlength : (s.history.truncate (s.snapshot s.current)).queue.length =
          (s.snapshot s.current).queue := congrArg Snapshot.queue htrunc
      exact hbelow.trans_eq hlength.symm

/-- Loading a snapshot changes the position, the values and the assets. -/
theorem Consistent.loadSnapshot? (hc : s.Consistent) {i : Nat}
    (ht : s.loadSnapshot? i = some t) : t.Consistent := by
  rw [Session.loadSnapshot?] at ht
  split at ht
  next => simp at ht
  next hi =>
    obtain rfl : _ = t := Option.some.inj ht
    exact hc.congr rfl rfl (show i < s.snapshots.length by omega) rfl

/-- A step back is a snapshot that is loaded, or the start of the story. -/
theorem Consistent.undo? (hc : s.Consistent) (ht : s.undo? = some t) : t.Consistent := by
  rw [Session.undo?] at ht
  split at ht
  next => simp at ht
  next hcurrent =>
    obtain rfl : _ = t := Option.some.inj ht
    exact hc.congr rfl rfl (Nat.zero_lt_of_lt hc.current_lt) rfl
  next => exact hc.loadSnapshot? ht

/-- A bookmark is on an action of the queue. -/
theorem Consistent.addBookmarkAt? (hc : s.Consistent) {queue : Nat} {description : Option String}
    (ht : s.addBookmarkAt? queue description = some t) : t.Consistent := by
  obtain ⟨entry, hentry, rfl⟩ := Option.map_eq_some_iff.mp ht
  refine { hc with bookmarks_lt := fun e he => ?_ }
  rcases SortedMap.mem_insert he with rfl | he
  · exact (List.getElem?_eq_some_iff.mp hentry).1
  · exact hc.bookmarks_lt e he

/-- A bookmark on the action at hand is on the last one before the snapshot, if there is one. -/
theorem addBookmark?_eq (description : Option String) : s.addBookmark? description =
    if (s.snapshot s.current).queue = 0 then none
    else (s.addBookmarkAt? ((s.snapshot s.current).queue - 1) description).map fun t =>
      (t, (s.snapshot s.current).queue - 1) := by
  rw [addBookmark?]
  split
  next hqueue => rw [if_pos hqueue]
  next queue hqueue => rw [hqueue, if_neg (Nat.succ_ne_zero queue)]; rfl

/-- A bookmark on the action at hand is one on some action of the queue. -/
theorem addBookmarkAt?_of_addBookmark? {description : Option String}
    (ht : (s.addBookmark? description).map (·.1) = some t) :
    ∃ queue, s.addBookmarkAt? queue description = some t := by
  rw [addBookmark?_eq] at ht
  split at ht
  · cases ht
  · refine ⟨(s.snapshot s.current).queue - 1, ?_⟩
    rw [← ht, Option.map_map]
    exact Option.map_id'.symm

/-- A bookmark on the action at hand keeps the invariant. -/
theorem Consistent.addBookmark? (hc : s.Consistent) {description : Option String} {queue : Nat}
    (ht : s.addBookmark? description = some (t, queue)) : t.Consistent := by
  obtain ⟨queue, hqueue⟩ := addBookmarkAt?_of_addBookmark? (congrArg (·.map (·.1)) ht)
  exact hc.addBookmarkAt? hqueue

/-- A bookmark changes nothing but the bookmarks. -/
theorem eq_of_addBookmark? {description : Option String} {queue : Nat}
    (ht : s.addBookmark? description = some (t, queue)) :
    ∃ bookmarks, t = { s with bookmarks } := by
  obtain ⟨queue, hqueue⟩ := addBookmarkAt?_of_addBookmark? (congrArg (·.map (·.1)) ht)
  obtain ⟨entry, -, rfl⟩ := Option.map_eq_some_iff.mp hqueue
  exact ⟨_, rfl⟩

/-- What holds of a session holds after an operation that may be refused, if it holds when the
operation is not. -/
theorem of_getD {P : Session → Prop} {answer : Option Session} (hs : P s)
    (hanswer : ∀ t, answer = some t → P t) : P (answer.getD s) := by
  cases answer with
  | none => exact hs
  | some t => exact hanswer t rfl

/-- The invariant is kept by each operation. -/
theorem Consistent.apply (hc : s.Consistent) (op : Operation) : (s.apply op).Consistent := by
  cases op with
  | modifyValue | setValue | setAsset | setAction | rename =>
    exact hc.congr rfl rfl hc.current_lt rfl
  | createSnapshot => exact hc.createSnapshot
  | loadSnapshot index => exact of_getD hc fun _ ht => hc.loadSnapshot? ht
  | undo => exact of_getD hc fun _ ht => hc.undo? ht
  | redo => exact of_getD hc fun _ ht => hc.loadSnapshot? ht
  | trim => exact hc.trim
  | addBookmark description =>
    refine of_getD hc fun t ht => ?_
    obtain ⟨queue, hqueue⟩ := addBookmarkAt?_of_addBookmark? ht
    exact hc.addBookmarkAt? hqueue
  | addBookmarkAt queue description => exact of_getD hc fun _ ht => hc.addBookmarkAt? ht
  | reset => exact consistent_new s.name

/-- The invariant is kept by every run. -/
theorem Consistent.run (hc : s.Consistent) (ops : List Operation) : (s.run ops).Consistent := by
  induction ops generalizing s with
  | nil => exact hc
  | cons op ops ih => exact ih (hc.apply op)

end Gamebook.Session
