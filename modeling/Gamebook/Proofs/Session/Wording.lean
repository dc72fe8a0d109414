import Gamebook.Proofs.Session.TimeTravel
import Gamebook.Proofs.Value.Atoms

/-!
# Texts in sessions

A session keeps texts of a story in many places: in its logs, and in the values and the assets that
are live. If all of them are of a robust kind (`Session.Says`), then they are so after any of the
operations by which a game changes its session, as long as what is brought in is of that kind. The
texts that the session makes by itself, its name and its bookmarks, have no line breaks, and so are
of any robust kind.
-/

namespace Gamebook

variable {Q : String → Prop}

/-! ### Logs -/

/-- What is known of the texts in the logs: no asset is without a name, and literals are taken for
the atoms of their values. -/
structure History.Says (Q : String → Prop) (h : History) : Prop where
  queue : ∀ entry ∈ h.queue, Q entry
  assets : ∀ set ∈ h.assets, ∀ asset ∈ set, asset ≠ "" ∧ Q asset
  tracked : ∀ v ∈ h.tracked, Q v.name ∧ ∀ literal ∈ v.values, (Value.ofLiteral literal).Says Q

namespace History

variable {h : History}

theorem says_empty : Says Q {} :=
  ⟨by simp, by simp, by simp⟩

/-- The entry of an action is one text more in the queue. -/
theorem Says.recordAction (hs : h.Says Q) {entry : String} (hentry : Q entry) :
    (h.recordAction entry).Says Q := by
  refine ⟨fun e he => ?_, hs.assets, hs.tracked⟩
  rcases List.mem_append.mp he with he | he
  · exact hs.queue e he
  · rwa [List.mem_singleton.mp he]

/-- The active assets are one set more, unless they are those of the last set. -/
theorem Says.recordAssets (hs : h.Says Q) {active : List String}
    (hactive : ∀ asset ∈ active, asset ≠ "" ∧ Q asset) : (h.recordAssets active).1.Says Q := by
  rw [History.recordAssets]
  split
  · exact hs
  · refine ⟨hs.queue, fun set hset asset hasset => ?_, hs.tracked⟩
    rcases List.mem_append.mp hset with hset | hset
    · exact hs.assets set hset asset hasset
    · rw [List.mem_singleton.mp hset] at hasset
      exact hactive asset (List.mem_mergeSort.mp hasset)

/-- A variable that is new has a name and no literals yet. -/
theorem Says.register (hs : h.Says Q) {name : String} (hname : Q name) :
    (h.register name).1.Says Q := by
  rcases h.register_cases name with ⟨_, _, _, heq⟩ | ⟨_, _, heq⟩
  · rwa [heq]
  · rw [heq]
    refine ⟨hs.queue, hs.assets, fun v hv => ?_⟩
    rcases List.mem_append.mp hv with hv | hv
    · exact hs.tracked v hv
    · rw [List.mem_singleton.mp hv]
      exact ⟨hname, by simp⟩

/-- A literal is told by the atoms that are read from it, not by its own text. -/
theorem Says.recordValue (hs : h.Says Q) {name literal : String} (hname : Q name)
    (hliteral : (Value.ofLiteral literal).Says Q) : (h.recordValue name literal).1.Says Q := by
  have hreg := hs.register hname
  rw [History.recordValue]
  dsimp only
  split
  · exact hreg
  · refine ⟨hreg.queue, hreg.assets, fun v hv => ?_⟩
    obtain ⟨i, hi⟩ := List.mem_iff_getElem?.mp hv
    rw [List.getElem?_modify] at hi
    obtain ⟨w, hw, rfl⟩ := Option.map_eq_some_iff.mp hi
    have hold := hreg.tracked w (List.mem_of_getElem? hw)
    split
    · refine ⟨hold.1, fun l hl => ?_⟩
      rcases List.mem_append.mp hl with hl | hl
      · exact hold.2 l hl
      · rwa [List.mem_singleton.mp hl]
    · exact hold

/-- Cutting the logs brings nothing in. -/
theorem Says.truncate (hs : h.Says Q) (p : Snapshot) : (h.truncate p).Says Q where
  queue e he := hs.queue e (List.mem_of_mem_take he)
  assets set hset := hs.assets set (List.mem_of_mem_take hset)
  tracked v hv := by
    obtain ⟨i, hlt, rfl⟩ := List.mem_mapIdx.mp hv
    have hold := hs.tracked _ (List.getElem_mem hlt)
    exact ⟨hold.1, fun l hl => hold.2 l (List.mem_of_mem_take hl)⟩

/-- The values at a moment are read from literals in the logs. -/
theorem Says.valuesAt (hs : h.Says Q) {changes : Nat} {e : String × String}
    (he : e ∈ h.valuesAt changes) : Q e.1 ∧ (Value.ofLiteral e.2).Says Q := by
  obtain ⟨⟨v, id⟩, hv, hread⟩ := List.mem_filterMap.mp he
  obtain ⟨length, -, hread⟩ := Option.bind_eq_some_iff.mp hread
  obtain ⟨literal, hliteral, rfl⟩ := Option.map_eq_some_iff.mp hread
  have hold := hs.tracked v (List.fst_mem_of_mem_zipIdx hv)
  exact ⟨hold.1, hold.2 literal (List.mem_of_getElem? hliteral)⟩

/-- The assets at a moment are a set in the logs, or none. -/
theorem Says.assetsAt (hs : h.Says Q) {n : Nat} {asset : String} (hasset : asset ∈ h.assetsAt n) :
    asset ≠ "" ∧ Q asset := by
  rw [History.assetsAt] at hasset
  split at hasset
  · cases hasset
  · rw [List.getD_eq_getElem?_getD] at hasset
    cases hset : h.assets[n - 1]? with
    | none =>
      rw [hset] at hasset
      cases hasset
    | some set =>
      rw [hset] at hasset
      exact hs.assets set (List.mem_of_getElem? hset) asset hasset

end History

/-! ### Sessions -/

/-- What is known of the texts in a session. -/
structure Session.Says (Q : String → Prop) (s : Session) : Prop where
  name : Q s.name
  history : s.history.Says Q
  bookmarks : ∀ e ∈ s.bookmarks.entries, Q e.2
  values : ∀ e ∈ s.values.entries, Q e.1 ∧ e.2.Says Q
  assets : ∀ e ∈ s.assets.entries, e.1 ≠ "" ∧ Q e.1
  pending : ∀ entry ∈ s.pending, Q entry

namespace Session

variable {s t : Session}

/-- A new session has no text but its name, and a name is one line. -/
theorem says_named (hQ : Text.Robust Q) (name : String) : (named name).Says Q where
  name := hQ.unbroken (unbroken_oneLine name)
  history := History.says_empty
  bookmarks := by simp [named]
  values := by simp [named]
  assets := by simp [named]
  pending := by simp [named]

/-- A session is renamed to one line, whatever the name is. -/
theorem Says.rename (hQ : Text.Robust Q) (hs : s.Says Q) (name : String) : (s.rename name).Says Q :=
  { hs with name := hQ.unbroken (unbroken_oneLine name) }

/-- A session that starts again keeps nothing but its name. -/
theorem Says.reset (hs : s.Says Q) : s.reset.Says Q where
  name := hs.name
  history := History.says_empty
  bookmarks := by simp [Session.reset]
  values := by simp [Session.reset]
  assets := by simp [Session.reset]
  pending := by simp [Session.reset]

/-! ### Values and assets -/

theorem Says.value? (hs : s.Says Q) {noun : String} {v : Value} (hv : s.value? noun = some v) :
    v.Says Q :=
  (hs.values _ (SortedMap.get?_eq_some_iff.mp hv)).2

/-- A changed value has its atoms from the value that it had, or from the default, and from the
operand. -/
theorem Says.modifyValue (hs : s.Says Q) {noun : String} {default w : Value} (hnoun : Q noun)
    (hdefault : default.Says Q) (c : Script.Change) (hw : w.Says Q) :
    (s.modifyValue noun default (·.change c w)).1.Says Q := by
  have hown : (s.ownValue noun default).Says Q := by
    rw [ownValue]
    cases hvalue : s.value? noun with
    | none => exact hdefault.congr rfl
    | some v => exact hs.value? hvalue
  refine { hs with values := fun e he => ?_ }
  rcases SortedMap.mem_insert he with rfl | he
  · exact ⟨hnoun, hown.change hw c⟩
  · exact hs.values e he

/-- An asset is switched on only if it has a name. -/
theorem Says.setAsset (hs : s.Says Q) {asset : String} (hne : asset ≠ "") (hasset : Q asset)
    (on : Bool) : (s.setAsset asset on).Says Q := by
  refine { hs with assets := fun e he => ?_ }
  cases on with
  | true =>
    rcases SortedMap.mem_insert he with rfl | he
    · exact ⟨hne, hasset⟩
    · exact hs.assets e he
  | false => exact hs.assets e (List.mem_of_mem_filter he)

/-! ### Recording -/

/-- The entry of an action is put together from its noun and its verb. -/
theorem Says.setAction (hQ : Text.Robust Q) (hs : s.Says Q) {noun verb : String} (hnoun : Q noun)
    (hverb : Q verb) : (s.setAction noun verb).Says Q := by
  refine { hs with pending := ?_ }
  rintro entry ⟨⟩
  have hcolon : Q ":" := hQ.unbroken (by simp [Text.Unbroken])
  exact hQ.append (hQ.append hnoun hcolon) hverb

/-- Values are recorded as literals, from which their atoms are read again, trimmed. -/
theorem says_recordValues (hQ : Text.Robust Q) {h : History} (hs : h.Says Q)
    {es : List (String × Value)} (hes : ∀ e ∈ es, Q e.1 ∧ e.2.Says Q) :
    (recordValues h es).Says Q := by
  induction es generalizing h with
  | nil => exact hs
  | cons e es ih =>
    have hmore := fun e' he' => hes e' (List.mem_cons_of_mem e he')
    obtain ⟨hname, hvalue⟩ := hes e List.mem_cons_self
    rw [recordValues_cons]
    split
    · -- the atoms that are read from the literal are those of the value, trimmed
      have hatoms := hQ.reread fun a ha => (hvalue a ha).2
      exact ih (hs.recordValue hname fun a ha => ⟨(Value.mem_ofLiteral ha).1, hatoms a ha⟩) hmore
    · exact ih hs hmore

/-- What is recorded is the action that is waiting, the active assets and the values. -/
theorem Says.recorded (hQ : Text.Robust Q) (hs : s.Says Q) : s.recorded.Says Q := by
  have hentry : Q (s.pending.getD "") := by
    cases hpending : s.pending with
    | none => exact hQ.empty
    | some entry => exact hs.pending entry hpending
  have hactive : ∀ asset ∈ s.activeAssets, asset ≠ "" ∧ Q asset := by
    intro asset hasset
    obtain ⟨e, he, rfl⟩ := List.mem_map.mp hasset
    exact hs.assets e he
  exact says_recordValues hQ ((hs.history.recordAction hentry).recordAssets hactive) hs.values

/-- Taking a snapshot records, and leaves the live values without their marks. -/
theorem Says.createSnapshot (hQ : Text.Robust Q) (hs : s.Says Q) : s.createSnapshot.Says Q := by
  have hvalues : ∀ e ∈ (s.values.mapValues Value.clearDirty).entries, Q e.1 ∧ e.2.Says Q := by
    intro e he
    obtain ⟨e', he', rfl⟩ := List.mem_map.mp he
    obtain ⟨hname, hvalue⟩ := hs.values e' he'
    exact ⟨hname, hvalue.congr rfl⟩
  by_cases htip : s.isAtTip
  · rw [createSnapshot_of_isAtTip htip]
    exact ⟨hs.name, hs.recorded hQ, hs.bookmarks, hvalues, hs.assets, by simp⟩
  · rw [createSnapshot_of_not_isAtTip htip]
    exact ⟨hs.name, hs.history, hs.bookmarks, hvalues, hs.assets, by simp⟩

/-- What was undone is taken from the logs, with its bookmarks. -/
theorem Says.trim (hs : s.Says Q) : s.trim.Says Q := by
  by_cases htip : s.isAtTip
  · rwa [Session.trim, if_pos htip]
  · rw [trim_of_not_isAtTip htip]
    exact { hs with
      history := hs.history.truncate _
      bookmarks := fun e he => hs.bookmarks e (List.mem_of_mem_filter he) }

/-- A bookmark is one line, whatever its description is. -/
theorem Says.addBookmark? (hQ : Text.Robust Q) (hs : s.Says Q) {description : Option String}
    {queue : Nat} (ht : s.addBookmark? description = some (t, queue)) : t.Says Q := by
  obtain ⟨queue, hqueue⟩ := addBookmarkAt?_of_addBookmark? (congrArg (·.map (·.1)) ht)
  obtain ⟨entry, -, rfl⟩ := Option.map_eq_some_iff.mp hqueue
  refine { hs with bookmarks := fun e he => ?_ }
  rcases SortedMap.mem_insert he with rfl | he
  · exact hQ.unbroken (unbroken_oneLine _)
  · exact hs.bookmarks e he

/-! ### Going back and forth -/

/-- Going to a moment takes the values and the assets from the logs. -/
theorem Says.restore (hs : s.Says Q) (index : Nat) : (s.restore index).Says Q where
  name := hs.name
  history := hs.history
  bookmarks := hs.bookmarks
  values e he := by
    obtain ⟨e', he', rfl⟩ := List.mem_map.mp (SortedMap.mem_ofList he)
    exact hs.history.valuesAt he'
  assets e he := by
    obtain ⟨asset, hasset, rfl⟩ := List.mem_map.mp (SortedMap.mem_ofList he)
    exact hs.history.assetsAt hasset
  pending := by simp [Session.restore]

theorem Says.loadSnapshot? (hs : s.Says Q) {i : Nat} (ht : s.loadSnapshot? i = some t) :
    t.Says Q := by
  rw [Session.loadSnapshot?] at ht
  split at ht
  · cases ht
  · obtain rfl : _ = t := Option.some.inj ht
    exact { hs.restore i with }

/-- A move goes to a moment of the logs, or to the start, where nothing is live. -/
theorem Says.move (hs : s.Says Q) (m : Move) : (s.apply m.operation).Says Q := by
  rw [apply_operation]
  refine of_getD hs fun t ht => ?_
  cases m with
  | load index => exact hs.loadSnapshot? ht
  | redo => exact hs.loadSnapshot? ht
  | undo =>
    rw [move?, undo?] at ht
    split at ht
    · cases ht
    · obtain rfl : _ = t := Option.some.inj ht
      exact { hs with values := by simp, assets := by simp, pending := by simp }
    · exact hs.loadSnapshot? ht

/-- The action of a snapshot is an entry of the queue. -/
theorem Says.snapshotAction? (hs : s.Says Q) {index : Nat} {entry : String}
    (h : s.snapshotAction? index = some entry) : Q entry := by
  obtain ⟨p, -, hentry⟩ := Option.bind_eq_some_iff.mp h
  split at hentry
  · cases hentry
  · exact hs.history.queue entry (List.mem_of_getElem? hentry)

end Session

end Gamebook
