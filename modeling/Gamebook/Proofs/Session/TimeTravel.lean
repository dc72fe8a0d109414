import Gamebook.Proofs.Session.Views

/-!
# Time travel

A player acts, steps back and forth, and sets bookmarks. A `Timeline` is a session together with
what was seen after each action that has not been discarded since. No state of the past is kept in
a session: going to a snapshot puts it together from the logs. All the same it is exactly what was
seen then (`Reached.time_travel`), if no atom that is written starts or ends with white space.

What carries the proof is that the logs always say what was seen (`Timeline.Faithful`), and that
the session is settled at its position.
-/

namespace Gamebook

namespace Session

/-! ### Acting and moving -/

/-- What an action may do to the state of a story. -/
inductive Touch where
  | set (noun : String) (v : ProperValue)
  | change (noun : String) (ms : List Value.Mutation)
  | asset (asset : String) (on : Bool)

/-- The operation on the session that this is; a noun always has the value of the story to start
from. -/
def Touch.operation (story : String → ProperValue) : Touch → Operation
  | set noun v => .setValue noun v
  | change noun ms => .modifyValue noun (story noun).1 fun v => v.mutate ms
  | asset name on => .setAsset name on

/-- The session in which an action has been done, before the snapshot is taken. -/
def acting (s : Session) (story : String → ProperValue) (noun verb : String)
    (touches : List Touch) : Session :=
  (s.trim.setAction noun verb).run (touches.map (Touch.operation story))

/-- A way to another snapshot. -/
inductive Move where
  | load (index : Nat)
  | undo
  | redo
  deriving DecidableEq

/-- The session after a move, unless it is refused. -/
def move? (s : Session) : Move → Option Session
  | .load index => s.loadSnapshot? index
  | .undo => s.undo?
  | .redo => s.redo?

/-- The session after some moves, unless one is refused. -/
def walk? (s : Session) (moves : List Move) : Option Session :=
  moves.foldlM move? s

/-- The operation that a move is; if it is refused, nothing happens. -/
def Move.operation : Move → Operation
  | load index => .loadSnapshot index
  | undo => .undo
  | redo => .redo

/-- The snapshot that a move leads to. -/
def target (s : Session) : Move → Nat
  | .load index => index
  | .undo => s.current - 1
  | .redo => s.current + 1

variable {s t : Session} {story : String → ProperValue}

/-! ### What moves do -/

/-- A move other than to the start of the story restores the snapshot that it leads to; the start
is reached by stepping back from the first action only. -/
theorem move?_eq (s : Session) (m : Move) : s.move? m =
    if 0 < s.target m ∧ s.target m < s.snapshots.length then
      some { s.restore (s.target m) with current := s.target m }
    else if m = .undo ∧ s.current = 1 then
      some { s with values := {}, assets := {}, pending := none, current := 0 }
    else none := by
  have hload : ∀ i, s.loadSnapshot? i =
      if 0 < i ∧ i < s.snapshots.length then some { s.restore i with current := i } else none := by
    intro i
    rw [loadSnapshot?]
    by_cases hi : 0 < i ∧ i < s.snapshots.length
    · rw [if_pos hi, if_neg (by omega)]
    · rw [if_neg hi, if_pos (by omega)]
  cases m with
  | load i => simp [move?, target, hload]
  | redo => simp [move?, target, redo?, hload]
  | undo =>
    rw [move?, target, undo?]
    rcases hcurrent : s.current with _ | _ | n
    · simp
    · simp
    · simp [hload]

/-- Which moves are refused. -/
theorem Consistent.move?_eq_none_iff (hc : s.Consistent) (m : Move) :
    s.move? m = none ↔ match m with
      | .load index => index = 0 ∨ s.snapshots.length ≤ index
      | .undo => s.current = 0
      | .redo => s.current + 1 = s.snapshots.length := by
  have hlt := hc.current_lt
  rw [move?_eq]
  cases m with
  | load i =>
    simp only [target, reduceCtorEq, false_and, if_false, ite_eq_right_iff, imp_false]
    omega
  | undo =>
    simp only [target, true_and]
    constructor
    · intro h
      by_contra hi
      split at h
      · cases h
      · rw [if_pos (by omega)] at h
        cases h
    · intro h
      rw [if_neg (by omega), if_neg (by omega)]
  | redo =>
    simp only [target, reduceCtorEq, false_and, if_false, ite_eq_right_iff, imp_false]
    omega

theorem apply_operation (s : Session) (m : Move) :
    s.apply m.operation = (s.move? m).getD s := by
  cases m <;> rfl

/-- After a move the session is settled. -/
theorem Consistent.settled_move? (hc : s.Consistent) (story : String → ProperValue) {m : Move}
    (ht : s.move? m = some t) : t.Settled story := by
  rw [move?_eq] at ht
  split at ht
  · obtain rfl : _ = t := Option.some.inj ht
    have hvalue := value?_restore hc (s.target m)
    refine ⟨⟨fun noun v hv => ?_, fun noun v hv _ => ?_, fun noun hv => ?_⟩, fun noun v hv => ?_,
      hc.activeAssets_restore _⟩
    · obtain ⟨literal, -, rfl⟩ := Option.map_eq_some_iff.mp (hvalue noun ▸ hv)
      exact Value.proper_ofLiteral literal
    · obtain ⟨literal, hliteral, rfl⟩ := Option.map_eq_some_iff.mp (hvalue noun ▸ hv)
      have hrecorded : recorded? { s.restore (s.target m) with current := s.target m } noun =
          some literal := hliteral
      rw [hrecorded]
      rfl
    · exact Option.map_eq_none_iff.mp (hvalue noun ▸ hv)
    · obtain ⟨literal, -, rfl⟩ := Option.map_eq_some_iff.mp (hvalue noun ▸ hv)
      rfl
  · split at ht
    · obtain rfl : _ = t := Option.some.inj ht
      exact settled_of_start rfl rfl (snapshot_eq hc.first)
    · cases ht

/-- Moves leave the logs and the snapshots alone. -/
theorem history_move? {m : Move} (ht : s.move? m = some t) :
    t.history = s.history ∧ t.snapshots = s.snapshots := by
  rw [move?_eq] at ht
  split at ht
  · obtain rfl : _ = t := Option.some.inj ht
    exact ⟨rfl, rfl⟩
  · split at ht
    · obtain rfl : _ = t := Option.some.inj ht
      exact ⟨rfl, rfl⟩
    · cases ht

/-- Moves keep the name, and lead where they should. -/
theorem current_move? {m : Move} (ht : s.move? m = some t) :
    t.name = s.name ∧ t.current = s.target m := by
  rw [move?_eq] at ht
  split at ht
  · obtain rfl : _ = t := Option.some.inj ht
    exact ⟨rfl, rfl⟩
  · split at ht
    next hundo =>
      obtain ⟨rfl, hcurrent⟩ := hundo
      obtain rfl : _ = t := Option.some.inj ht
      exact ⟨rfl, by rw [target, hcurrent]⟩
    · cases ht

/-- Only the start of the story is without values and assets of necessity. -/
theorem empty_of_move? {m : Move} (ht : s.move? m = some t) (hcurrent : t.current = 0) :
    t.values = {} ∧ t.assets = {} := by
  rw [move?_eq] at ht
  split at ht
  next htarget =>
    obtain rfl : _ = t := Option.some.inj ht
    exact absurd hcurrent htarget.1.ne'
  · split at ht
    · obtain rfl : _ = t := Option.some.inj ht
      exact ⟨rfl, rfl⟩
    · cases ht

/-- Bookmarks leave everything else alone. -/
theorem apply_addBookmarkAt (s : Session) (queue : Nat) (description : Option String) :
    ∃ bookmarks, s.apply (.addBookmarkAt queue description) = { s with bookmarks } := by
  refine of_getD (P := fun t => ∃ bookmarks, t = { s with bookmarks }) ⟨s.bookmarks, rfl⟩
    fun t ht => ?_
  obtain ⟨entry, -, rfl⟩ := Option.map_eq_some_iff.mp ht
  exact ⟨_, rfl⟩

theorem apply_addBookmark (s : Session) (description : Option String) :
    ∃ bookmarks, s.apply (.addBookmark description) = { s with bookmarks } := by
  refine of_getD (P := fun t => ∃ bookmarks, t = { s with bookmarks }) ⟨s.bookmarks, rfl⟩
    fun t ht => ?_
  obtain ⟨queue, hqueue⟩ := addBookmarkAt?_of_addBookmark? ht
  obtain ⟨entry, -, rfl⟩ := Option.map_eq_some_iff.mp hqueue
  exact ⟨_, rfl⟩

/-! ### What an action does -/

theorem InSync.touch (hs : s.InSync story) (touch : Touch) :
    (s.apply (touch.operation story)).InSync story := by
  cases touch with
  | set noun v => exact hs.setValue noun v
  | change noun ms => exact hs.modifyValue noun ms
  | asset name on => exact hs.congr rfl fun _ => rfl

/-- A touch leaves the logs, the snapshots and the position alone. -/
theorem history_touch (s : Session) (touch : Touch) :
    (s.apply (touch.operation story)).history = s.history ∧
      (s.apply (touch.operation story)).snapshots = s.snapshots ∧
        (s.apply (touch.operation story)).current = s.current := by
  cases touch <;> exact ⟨rfl, rfl, rfl⟩

/-- An action starts at the end of the logs, as they are cut, and keeps the session in step. -/
theorem InSync.acting (hs : s.InSync story) (hc : s.Consistent) (noun verb : String)
    (touches : List Touch) :
    (s.acting story noun verb touches).InSync story ∧
      (s.acting story noun verb touches).history = s.trim.history ∧
        (s.acting story noun verb touches).snapshots = s.trim.snapshots ∧
          (s.acting story noun verb touches).current = s.trim.current := by
  have hvalues : (s.trim.setAction noun verb).values = s.values := by
    by_cases htip : s.isAtTip
    · rw [trim, if_pos htip]
      rfl
    · rw [trim_of_not_isAtTip htip]
      rfl
  have hstart : (s.trim.setAction noun verb).InSync story :=
    hs.congr hvalues hc.recorded?_trim
  have hrun : ∀ (touches : List Touch) {t : Session}, t.InSync story →
      (t.run (touches.map (Touch.operation story))).InSync story ∧
        (t.run (touches.map (Touch.operation story))).history = t.history ∧
          (t.run (touches.map (Touch.operation story))).snapshots = t.snapshots ∧
            (t.run (touches.map (Touch.operation story))).current = t.current := by
    intro touches
    induction touches with
    | nil => exact fun ht => ⟨ht, rfl, rfl, rfl⟩
    | cons touch touches ih =>
      intro t ht
      obtain ⟨hsync, hhistory, hsnapshots, hcurrent⟩ := ih (ht.touch touch)
      obtain ⟨hhistory', hsnapshots', hcurrent'⟩ := @history_touch story t touch
      exact ⟨hsync, hhistory.trans hhistory', hsnapshots.trans hsnapshots',
        hcurrent.trans hcurrent'⟩
  exact hrun touches hstart

theorem current_trim (s : Session) : s.trim.current = s.current := by
  by_cases htip : s.isAtTip
  · rw [trim, if_pos htip]
  · rw [trim_of_not_isAtTip htip]

theorem snapshots_trim (s : Session) :
    s.trim.snapshots = s.snapshots.take (s.current + 1) := by
  by_cases htip : s.isAtTip
  · rw [Session.trim, if_pos htip, isAtTip_iff.mp htip, List.take_length]
  · rw [trim_of_not_isAtTip htip]

/-- An action leaves a session consistent. -/
theorem Consistent.acting (hc : s.Consistent) (noun verb : String) (touches : List Touch) :
    (s.acting story noun verb touches).Consistent := by
  have hstart : (s.trim.setAction noun verb).Consistent :=
    hc.trim.congr rfl rfl hc.trim.current_lt rfl
  exact hstart.run _

/-- An action goes on from the snapshots up to the one at hand. -/
theorem InSync.snapshots_acting (hs : s.InSync story) (hc : s.Consistent) (noun verb : String)
    (touches : List Touch) :
    (s.acting story noun verb touches).snapshots.length = s.current + 1 ∧
      (∀ i, i ≤ s.current →
        (s.acting story noun verb touches).snapshots[i]? = some (s.snapshot i)) ∧
      (s.acting story noun verb touches).isAtTip := by
  obtain ⟨-, -, hsnapshots, hcurrent⟩ := hs.acting hc noun verb touches
  rw [snapshots_trim] at hsnapshots
  rw [current_trim] at hcurrent
  have hlt := hc.current_lt
  have hlength : (s.acting story noun verb touches).snapshots.length = s.current + 1 := by
    rw [hsnapshots, List.length_take]
    omega
  refine ⟨hlength, fun i hi => ?_, ?_⟩
  · rw [hsnapshots, List.getElem?_take_of_lt (by omega), getElem?_snapshots (by omega)]
  · rw [isAtTip_iff, hlength, hcurrent]

/-- What an action records leaves the logs as they were at the snapshots in front of it. -/
theorem InSync.view_createSnapshot_acting (hs : s.InSync story) (hc : s.Consistent)
    (noun verb : String) (touches : List Touch) {i : Nat} (hi : i < s.current) :
    (s.acting story noun verb touches).createSnapshot.history.view story
        ((s.acting story noun verb touches).createSnapshot.snapshot (i + 1)) =
      s.history.view story (s.snapshot (i + 1)) := by
  obtain ⟨hlength, hkept, htip⟩ := hs.snapshots_acting hc noun verb touches
  have hcreate := createSnapshot_of_isAtTip htip
  have hsnapshot : (s.acting story noun verb touches).createSnapshot.snapshot (i + 1) =
      s.snapshot (i + 1) := by
    rw [hcreate]
    refine snapshot_eq ?_
    rw [List.getElem?_append_left (by omega)]
    exact hkept (i + 1) hi
  have hmem := List.mem_of_getElem? (hkept (i + 1) hi)
  rw [hsnapshot, hcreate]
  show (s.acting story noun verb touches).recorded.view story _ = _
  rw [(hc.acting noun verb touches).view_recorded story hmem, (hs.acting hc noun verb touches).2.1,
    hc.view_trim story hi]

end Session

/-! ### Timelines -/

/-- A session with what was seen after each action that has not been discarded since. -/
structure Timeline where
  session : Session
  past : List View := []

namespace Timeline

open Session

/-- How far an action takes a timeline. -/
def act (t : Timeline) (story : String → ProperValue) (noun verb : String) (touches : List Touch) :
    Timeline where
  session := (t.session.acting story noun verb touches).createSnapshot
  past := t.past.take t.session.current ++
    [(t.session.acting story noun verb touches).createSnapshot.view story]

/-- The timelines of a story in which no action writes an atom that starts or ends with white
space. -/
inductive Reached (story : String → ProperValue) : Timeline → Prop where
  | start (name : String) : Reached story { session := { name } }
  | act {t : Timeline} (noun verb : String) (touches : List Touch) (ht : Reached story t)
      (htrimmed : ∀ e ∈ (t.session.acting story noun verb touches).values.entries,
        e.2.dirty → e.2.Trimmed) :
      Reached story (t.act story noun verb touches)
  | move {t : Timeline} (m : Move) (ht : Reached story t) :
      Reached story { t with session := t.session.apply m.operation }
  | bookmark {t : Timeline} (description : Option String) (ht : Reached story t) :
      Reached story { t with session := t.session.apply (.addBookmark description) }
  | bookmarkAt {t : Timeline} (queue : Nat) (description : Option String) (ht : Reached story t) :
      Reached story { t with session := t.session.apply (.addBookmarkAt queue description) }

/-- The logs say of each snapshot what was seen when it was taken. -/
structure Faithful (t : Timeline) (story : String → ProperValue) : Prop where
  length_eq : t.past.length + 1 = t.session.snapshots.length
  past_eq : ∀ i, i < t.past.length →
    t.past[i]? = some (t.session.history.view story (t.session.snapshot (i + 1)))

variable {story : String → ProperValue} {t : Timeline}

theorem Faithful.congr {s : Session} (hf : t.Faithful story)
    (hhistory : s.history = t.session.history) (hsnapshots : s.snapshots = t.session.snapshots) :
    Faithful { t with session := s } story where
  length_eq := hsnapshots ▸ hf.length_eq
  past_eq i hi := by
    rw [Session.snapshot, hhistory, hsnapshots]
    exact hf.past_eq i hi

theorem Faithful.act (hf : t.Faithful story) (hc : t.session.Consistent)
    (hs : t.session.InSync story) (noun verb : String) (touches : List Touch)
    (htrimmed : ∀ e ∈ (t.session.acting story noun verb touches).values.entries,
      e.2.dirty → e.2.Trimmed) :
    (t.act story noun verb touches).session.Consistent ∧
      (t.act story noun verb touches).session.Settled story ∧
        (t.act story noun verb touches).session.current ≠ 0 ∧
          (t.act story noun verb touches).Faithful story := by
  obtain ⟨hlength, -, htip⟩ := hs.snapshots_acting hc noun verb touches
  have hca : (t.session.acting story noun verb touches).Consistent := hc.acting noun verb touches
  have hsettled := (hs.acting hc noun verb touches).1.createSnapshot hca htip htrimmed
  have hcreate := createSnapshot_of_isAtTip htip
  have hposition : (t.session.acting story noun verb touches).createSnapshot.current =
      t.session.current + 1 := by
    rw [hcreate]
    exact hlength
  have hlt := hc.current_lt
  have hpast : (t.past.take t.session.current).length = t.session.current := by
    have hlength' := hf.length_eq
    rw [List.length_take]
    omega
  refine ⟨hca.createSnapshot, hsettled, ?_, ?_, fun i hi => ?_⟩
  · show (createSnapshot _).current ≠ 0
    omega
  · show (t.past.take t.session.current ++ [_]).length + 1 = (createSnapshot _).snapshots.length
    rw [hcreate]
    simp only [List.length_append, List.length_singleton, hlength, hpast]
  · have hi' : i < t.session.current + 1 := by
      have hlength' : (t.act story noun verb touches).past.length = t.session.current + 1 := by
        show (t.past.take t.session.current ++ [_]).length = _
        rw [List.length_append, List.length_singleton, hpast]
      omega
    show (t.past.take t.session.current ++ [_])[i]? = some (History.view (createSnapshot _).history
      story (snapshot (createSnapshot _) (i + 1)))
    rcases Nat.lt_or_ge i t.session.current with hold | hnew
    · -- an earlier snapshot, which neither the cut nor the new one touches
      rw [List.getElem?_append_left (by omega), List.getElem?_take_of_lt hold,
        hf.past_eq i (by rw [List.length_take] at hpast; omega),
        hs.view_createSnapshot_acting hc noun verb touches hold]
    · obtain rfl : i = t.session.current := by omega
      rw [List.getElem?_append_right (by omega), hpast, Nat.sub_self, List.getElem?_cons_zero,
        hsettled.view_eq, hposition]

/-- What is known of a timeline that can be reached. -/
theorem Reached.faithful (ht : Reached story t) :
    t.session.Consistent ∧ t.session.Settled story ∧ t.Faithful story ∧
      (t.session.current = 0 → t.session.values = {} ∧ t.session.assets = {}) := by
  induction ht with
  | start name =>
    refine ⟨consistent_new name, settled_of_start rfl rfl rfl, ⟨rfl, ?_⟩, fun _ => ⟨rfl, rfl⟩⟩
    rintro i ⟨⟩
  | act noun verb touches _ htrimmed ih =>
    obtain ⟨hc, hsettled, hf, -⟩ := ih
    obtain ⟨hc', hsettled', hcurrent, hf'⟩ :=
      hf.act hc hsettled.toInSync noun verb touches htrimmed
    exact ⟨hc', hsettled', hf', fun h => absurd h hcurrent⟩
  | @move t m _ ih =>
    obtain ⟨hc, hsettled, hf, hempty⟩ := ih
    rw [apply_operation]
    cases hs : t.session.move? m with
    | none => exact ⟨hc, hsettled, hf, hempty⟩
    | some s =>
      obtain ⟨hhistory, hsnapshots⟩ := history_move? hs
      have hc' : s.Consistent := by
        have happly := hc.apply m.operation
        rwa [apply_operation, hs] at happly
      exact ⟨hc', hc.settled_move? story hs, hf.congr hhistory hsnapshots, empty_of_move? hs⟩
  | @bookmark t description _ ih =>
    obtain ⟨hc, hsettled, hf, hempty⟩ := ih
    obtain ⟨bookmarks, heq⟩ := t.session.apply_addBookmark description
    have hc' := hc.apply (.addBookmark description)
    rw [heq] at hc' ⊢
    exact ⟨hc', hsettled.congr rfl rfl rfl rfl rfl, hf.congr rfl rfl, hempty⟩
  | @bookmarkAt t queue description _ ih =>
    obtain ⟨hc, hsettled, hf, hempty⟩ := ih
    obtain ⟨bookmarks, heq⟩ := t.session.apply_addBookmarkAt queue description
    have hc' := hc.apply (.addBookmarkAt queue description)
    rw [heq] at hc' ⊢
    exact ⟨hc', hsettled.congr rfl rfl rfl rfl rfl, hf.congr rfl rfl, hempty⟩

/-- What is seen of a session away from the start of the story is what was seen when the snapshot
at its position was taken. -/
theorem Faithful.past_current (hf : t.Faithful story) (hc : t.session.Consistent)
    (hs : t.session.Settled story) (hcurrent : t.session.current ≠ 0) :
    t.past[t.session.current - 1]? = some (t.session.view story) := by
  have hlt := hc.current_lt
  have hlength := hf.length_eq
  rw [hs.view_eq, hf.past_eq _ (by omega), Nat.sub_add_cancel (by omega)]

/-- A walk through the snapshots of a timeline. -/
theorem Reached.walk? (ht : Reached story t) {moves : List Move} {s : Session}
    (hs : t.session.walk? moves = some s) : Reached story { t with session := s } := by
  induction moves generalizing t with
  | nil =>
    obtain rfl : t.session = s := Option.some.inj hs
    exact ht
  | cons m moves ih =>
    rw [Session.walk?, List.foldlM_cons, Option.bind_eq_bind, Option.bind_eq_some_iff] at hs
    obtain ⟨u, hu, hs⟩ := hs
    have hmove : Reached story { t with session := u } := by
      have happly := ht.move m
      rwa [apply_operation, hu, Option.getD_some] at happly
    exact ih (t := { t with session := u }) hmove hs

/-- Time travel is exact. Loading a snapshot, and any walk through the snapshots, leads to just what
was seen when the snapshot was taken; at the start of the story there is nothing that is not the
story's own; and a move that is refused changes nothing. -/
theorem Reached.time_travel (ht : Reached story t) :
    t.past.length + 1 = t.session.snapshots.length ∧
    (∀ i, 1 ≤ i → i < t.session.snapshots.length → ∃ s, t.session.loadSnapshot? i = some s ∧
      s.current = i ∧ t.past[i - 1]? = some (s.view story)) ∧
    (∀ moves s, t.session.walk? moves = some s →
      (s.current ≠ 0 → t.past[s.current - 1]? = some (s.view story)) ∧
      (s.current = 0 → s.values = {} ∧ s.assets = {})) ∧
    ∀ m : Move, t.session.move? m = none →
      t.session.apply m.operation = t.session ∧
      match m with
      | .load i => i = 0 ∨ t.session.snapshots.length ≤ i
      | .undo => t.session.current = 0
      | .redo => t.session.current + 1 = t.session.snapshots.length := by
  obtain ⟨hc, -, hf, -⟩ := ht.faithful
  have hwalk : ∀ moves s, t.session.walk? moves = some s →
      (s.current ≠ 0 → t.past[s.current - 1]? = some (s.view story)) ∧
      (s.current = 0 → s.values = {} ∧ s.assets = {}) := by
    intro moves s hs
    obtain ⟨hc', hsettled, hf', hempty⟩ := (ht.walk? hs).faithful
    exact ⟨hf'.past_current hc' hsettled, hempty⟩
  refine ⟨hf.length_eq, fun i hpos hi => ?_, hwalk, fun m hm => ⟨?_, ?_⟩⟩
  · have hload : t.session.loadSnapshot? i =
        some { t.session.restore i with current := i } := by
      rw [loadSnapshot?, if_neg (by omega)]
    have hstep : t.session.walk? [.load i] =
        some { t.session.restore i with current := i } := by
      rw [Session.walk?, List.foldlM_cons, move?, hload]
      rfl
    exact ⟨_, hload, rfl, (hwalk _ _ hstep).1 (Nat.one_le_iff_ne_zero.mp hpos)⟩
  · rw [apply_operation, hm]
    rfl
  · exact (hc.move?_eq_none_iff m).mp hm

/-- A lamp is lit, turned up, and turned down again: both of its states are there to go to. -/
theorem time_travel_lamp : ∃ (story : String → ProperValue) (t : Timeline), Reached story t ∧
    t.session.snapshots.length = 3 ∧ t.session.current = 1 ∧
    ∀ i, 1 ≤ i → i < 3 → ∃ s, t.session.loadSnapshot? i = some s ∧ s.current = i ∧
      t.past[i - 1]? = some (s.view story) := by
  have ht := (((@Reached.start (fun _ => ⟨.empty, Value.proper_of_nil rfl⟩) "lamp").act "lamp"
    "light" [.set "lamp" ⟨{ atoms := ["lit"], integer := 2 }, by decide⟩] (by decide)).act "lamp"
    "turn" [.change "lamp" [.setInteger 3], .asset "music" true] (by decide)).move .undo
  exact ⟨_, _, ht, by decide, by decide, fun i hpos hi => ht.time_travel.2.1 i hpos hi⟩

end Timeline

end Gamebook
