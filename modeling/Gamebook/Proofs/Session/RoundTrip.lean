import Gamebook.Proofs.Session.Legible

/-!
# Session files are read back

A session that operations lead to is read back from the bytes of its file (`round_trip`), if the
texts that a story brings in are lines, and no asset is without a name. What the session itself
writes is a line in any case: `Session.Plain`. Together this is all that reading asks of a session
(`Consistent.legible`).
-/

namespace Gamebook

/-! ### Literals are lines -/

namespace Value

/-- What is written for an atom holds no line feed, as these are escaped. -/
theorem mem_escapeAtom {first : Bool} {cs : List Char} {c : Char} (h : c ∈ escapeAtom first cs) :
    c ≠ '\n' := by
  induction cs generalizing first with
  | nil => simp [escapeAtom] at h
  | cons d cs ih =>
    rw [escapeAtom, List.mem_append] at h
    rcases h with h | h
    · rintro rfl
      split at h
      · simp at h
      · split at h
        · simp at h
        · split at h
          · simp at h
          next hfeed =>
            split at h
            · simp at h
            · exact hfeed (List.mem_singleton.mp h).symm
    · exact ih h

/-- A literal is kept on a line of its own. -/
theorem isLine_literal (v : Value) : Session.IsLine v.literal := by
  have hnumber : ∀ c ∈ '#' :: Decimal.ofWord v.integer, c ≠ '\n' ∧ c ≠ '\r' := by
    intro c hc
    rcases List.mem_cons.mp hc with rfl | hc
    · decide
    · rcases Decimal.mem_ofInt hc with hdigit | rfl
      · constructor <;> rintro rfl <;> exact absurd hdigit (by decide)
      · decide
  constructor
  · intro hfeed
    rw [literal, String.toList_ofList, literalChars, List.mem_append] at hfeed
    rcases hfeed with hfeed | hfeed
    · obtain ⟨atom, -, hfeed⟩ := List.mem_flatMap.mp hfeed
      rcases List.mem_append.mp hfeed with hfeed | hfeed
      · exact mem_escapeAtom hfeed rfl
      · simp at hfeed
    · exact (hnumber _ hfeed).1 rfl
  · -- a return may stand in an atom, but the numeral stands behind it
    intro hreturn
    rw [literal, String.toList_ofList, literalChars, List.getLast?_append,
      List.getLast?_eq_some_getLast (List.cons_ne_nil _ _), Option.some_or] at hreturn
    exact (hnumber _ (List.getLast_mem _)).2 (Option.some.inj hreturn)

/-- In every literal there is at least the sign in front of its number. -/
theorem literal_ne_empty (v : Value) : v.literal ≠ "" := by
  intro hempty
  have hsharp : '#' ∈ v.literal.toList := by simp [literal, literalChars]
  rw [hempty] at hsharp
  simp at hsharp

end Value

namespace History

/-- No log is longer than a number can say. -/
structure Fits (h : History) : Prop where
  queue : h.queue.length ≤ Decimal.maxIndex
  assets : h.assets.length ≤ Decimal.maxIndex
  tracked : h.tracked.length ≤ Decimal.maxIndex
  changes : h.changes.length ≤ Decimal.maxIndex

end History

namespace Session

variable {s t : Session}

/-! ### What a session writes -/

/-- What the session brings into its file by itself. -/
structure Plain (s : Session) : Prop where
  name : IsLine s.name
  bookmarks : ∀ e ∈ s.bookmarks.entries, IsLine e.2
  literals : ∀ w ∈ s.history.writes, ∃ v : Value, w.2 = v.literal

/-- A new session has a name on one line, and nothing else to write. -/
theorem plain_named (name : String) : Plain (named name) where
  name := isLine_oneLine name
  bookmarks := by simp [named]
  literals := by simp [named, History.writes]

/-- It is a matter of the name, the bookmarks and the logs only. -/
theorem Plain.congr (hp : s.Plain) (hname : t.name = s.name)
    (hbookmarks : t.bookmarks = s.bookmarks) (hhistory : t.history = s.history) : t.Plain where
  name := hname ▸ hp.name
  bookmarks := hbookmarks ▸ hp.bookmarks
  literals := hhistory ▸ hp.literals

/-- Only literals of values are recorded. -/
theorem mem_writes_recordValues {h : History} (hc : h.Consistent) {es : List (String × Value)}
    {w : String × String} (hw : w ∈ (recordValues h es).writes) :
    w ∈ h.writes ∨ ∃ v : Value, w.2 = v.literal := by
  induction es generalizing h with
  | nil => exact .inl hw
  | cons e es ih =>
    obtain ⟨noun, v⟩ := e
    rw [recordValues_cons] at hw
    split at hw
    · rcases ih (hc.recordValue noun v.literal) hw with hw | hw
      · rw [hc.writes_recordValue] at hw
        split at hw
        · exact .inl hw
        · rcases List.mem_append.mp hw with hw | hw
          · exact .inl hw
          · rw [List.mem_singleton.mp hw]
            exact .inr ⟨v, rfl⟩
      · exact .inr hw
    · exact ih hc hw

/-- A snapshot writes literals of values. -/
theorem Plain.createSnapshot (hp : s.Plain) (hc : s.Consistent) : s.createSnapshot.Plain := by
  by_cases htip : s.isAtTip
  · rw [createSnapshot_of_isAtTip htip]
    refine ⟨hp.name, hp.bookmarks, fun w hw => ?_⟩
    have haction := hc.history.recordAction (s.pending.getD "")
    rcases mem_writes_recordValues (haction.recordAssets s.activeAssets_sorted) hw with hw | hw
    · refine hp.literals w ?_
      rcases (s.history.recordAction (s.pending.getD "")).recordAssets_cases
        s.activeAssets_sorted with ⟨-, heq⟩ | ⟨-, heq⟩ <;> rw [heq] at hw <;> exact hw
    · exact hw
  · rw [createSnapshot_of_not_isAtTip htip]
    exact hp.congr rfl rfl rfl

/-- A cut leaves nothing that was not written before. -/
theorem Plain.trim (hp : s.Plain) (hc : s.Consistent) : s.trim.Plain := by
  by_cases htip : s.isAtTip
  · rw [Session.trim, if_pos htip]
    exact hp
  · rw [trim_of_not_isAtTip htip]
    refine ⟨hp.name, fun e he => hp.bookmarks e (List.mem_of_mem_filter he), fun w hw => ?_⟩
    rw [hc.history.writes_truncate] at hw
    exact hp.literals w (List.mem_of_mem_take hw)

theorem Plain.loadSnapshot? (hp : s.Plain) {i : Nat} (ht : s.loadSnapshot? i = some t) :
    t.Plain := by
  rw [Session.loadSnapshot?] at ht
  split at ht
  next => cases ht
  next =>
    obtain rfl : _ = t := Option.some.inj ht
    exact hp.congr rfl rfl rfl

theorem Plain.undo? (hp : s.Plain) (ht : s.undo? = some t) : t.Plain := by
  rw [Session.undo?] at ht
  split at ht
  next => cases ht
  next =>
    obtain rfl : _ = t := Option.some.inj ht
    exact hp.congr rfl rfl rfl
  next => exact hp.loadSnapshot? ht

/-- The text of a bookmark is folded to one line. -/
theorem Plain.addBookmarkAt? (hp : s.Plain) {queue : Nat} {description : Option String}
    (ht : s.addBookmarkAt? queue description = some t) : t.Plain := by
  obtain ⟨entry, -, rfl⟩ := Option.map_eq_some_iff.mp ht
  refine ⟨hp.name, fun e he => ?_, hp.literals⟩
  rcases SortedMap.mem_insert he with rfl | he
  · exact isLine_oneLine _
  · exact hp.bookmarks e he

/-- Each operation writes lines and literals, and nothing else. -/
theorem Plain.apply (hp : s.Plain) (hc : s.Consistent) (op : Operation) : (s.apply op).Plain := by
  cases op with
  | modifyValue | setValue | setAsset | setAction => exact hp.congr rfl rfl rfl
  | rename name => exact ⟨isLine_oneLine name, hp.bookmarks, hp.literals⟩
  | reset => exact ⟨hp.name, by simp [Session.apply, Session.reset],
      by simp [Session.apply, Session.reset, History.writes]⟩
  | createSnapshot => exact hp.createSnapshot hc
  | trim => exact hp.trim hc
  | loadSnapshot index => exact of_getD hp fun _ ht => hp.loadSnapshot? ht
  | undo => exact of_getD hp fun _ ht => hp.undo? ht
  | redo => exact of_getD hp fun _ ht => hp.loadSnapshot? ht
  | addBookmark description =>
    refine of_getD hp fun t ht => ?_
    obtain ⟨queue, hqueue⟩ := addBookmarkAt?_of_addBookmark? ht
    exact hp.addBookmarkAt? hqueue
  | addBookmarkAt queue description => exact of_getD hp fun _ ht => hp.addBookmarkAt? ht

/-- So does any run. -/
theorem Plain.run (hp : s.Plain) (hc : s.Consistent) (ops : List Operation) :
    (s.run ops).Plain := by
  induction ops generalizing s with
  | nil => exact hp
  | cons op ops ih => exact ih (hp.apply hc op) (hc.apply op)

/-! ### The round trip -/

/-- What a story brings into the file of a session are lines. -/
structure Linear (s : Session) : Prop where
  queue : ∀ entry ∈ s.history.queue, IsLine entry
  tracked : ∀ v ∈ s.history.tracked, IsLine v.name
  assets : ∀ set ∈ s.history.assets, ∀ asset ∈ set, IsLine asset ∧ asset ≠ ""

/-- Every literal in the logs is that of a value. -/
theorem Plain.literal (hp : s.Plain) (hc : s.Consistent) {v : Variable}
    (hv : v ∈ s.history.tracked) {literal : String} (hliteral : literal ∈ v.values) :
    ∃ w : Value, literal = w.literal := by
  rw [← hc.history.filter_writes hv] at hliteral
  obtain ⟨w, hw, rfl⟩ := List.mem_map.mp hliteral
  exact hp.literals w (List.mem_of_mem_filter hw)

/-- The texts in a session that operations lead to are kept on lines, if those of the story are. -/
theorem Consistent.lined (hc : s.Consistent) (hp : s.Plain) (hl : s.Linear) : s.Lined where
  name := hp.name
  queue := hl.queue
  assets := hl.assets
  tracked v hv := by
    refine ⟨hl.tracked v hv, fun literal hliteral => ?_⟩
    obtain ⟨w, rfl⟩ := hp.literal hc hv hliteral
    exact ⟨w.isLine_literal, w.literal_ne_empty⟩
  bookmarks := hp.bookmarks

/-- Every line of the file is kept. -/
theorem Linear.isLine_fileLines (hl : s.Linear) (hp : s.Plain) (hc : s.Consistent) :
    ∀ line ∈ s.fileLines, IsLine line :=
  (hc.lined hp hl).isLine_fileLines

/-- A session that operations lead to is legible, if what the story brings in are lines. -/
theorem Consistent.legible (hc : s.Consistent) (hp : s.Plain) (hl : s.Linear)
    (hfits : s.history.Fits) : s.Legible where
  toLined := hc.lined hp hl
  nodup_names := hc.history.nodup_names
  first := hc.first
  ordered := hc.ordered
  within _ hmem := hc.tip_follows hmem
  bookmarks_le e he := (hc.bookmarks_lt e he).le.trans hfits.queue
  counts_le := ⟨hfits.queue, hfits.assets, hfits.tracked⟩
  changes_le c hmem := by
    obtain ⟨v, hv, -, hle⟩ := hc.history.change_in_range hmem
    have hlt := hc.history.change_tracked c hmem
    -- a history is no longer than the change log, which counts it up
    have hlength : v.values.length ≤ s.history.changes.length := by
      have hcount := congrArg List.length (hc.history.lengths_eq c.1 v hv)
      rw [List.length_range', History.lengths, List.length_map] at hcount
      rw [← hcount]
      exact List.length_filter_le _ _
    exact ⟨hlt.le.trans hfits.tracked, (hle.trans hlength).trans hfits.changes⟩
  snapshots_le p hmem := by
    obtain ⟨hqueue, hassets, hchanges⟩ := follows_iff.mp (hc.tip_follows hmem)
    exact ⟨hqueue.trans hfits.queue, hassets.trans hfits.assets, hchanges.trans hfits.changes⟩

/-- The lines of a session are read as the session at its newest snapshot. -/
theorem Consistent.ofLines_fileLines (hc : s.Consistent) (hp : s.Plain) (hl : s.Linear)
    (hfits : s.history.Fits) : ofLines (s.fileLines.map some) = .ok s.reopened :=
  (hc.legible hp hl hfits).ofLines_fileLines hc.history.resolves

/-- A session that operations lead to is read back from the bytes of its file: the same name, logs,
snapshots and bookmarks, at the newest snapshot, with the values and the assets restored from it.
Written again it gives the same bytes. The texts of the story, which are the entries of the queue
and the names, have to be lines, and the names of assets not empty. -/
theorem round_trip (name : String) (ops : List Operation)
    (hlinear : (run (named name) ops).Linear) (hfits : (run (named name) ops).history.Fits) :
    ∃ t, ofFile (run (named name) ops).fileText.toUTF8.toList = .ok t ∧
      t.name = (run (named name) ops).name ∧
      t.history = (run (named name) ops).history ∧
      t.snapshots = (run (named name) ops).snapshots ∧
      t.bookmarks = (run (named name) ops).bookmarks ∧
      t.current + 1 = t.snapshots.length ∧
      t.values = (t.restore t.current).values ∧
      t.assets = (t.restore t.current).assets ∧
      t.fileText.toUTF8 = (run (named name) ops).fileText.toUTF8 := by
  have hc : (run (named name) ops).Consistent := (consistent_new (Text.oneLine name)).run ops
  have hp : (run (named name) ops).Plain := (plain_named name).run (consistent_new _) ops
  have hpos : 0 < (run (named name) ops).snapshots.length := Nat.zero_lt_of_lt hc.current_lt
  refine ⟨(run (named name) ops).reopened, ?_, rfl, rfl, rfl, rfl, ?_, rfl, rfl, rfl⟩
  · rw [fileText, ofFile_lines (hlinear.isLine_fileLines hp hc),
      hc.ofLines_fileLines hp hlinear hfits]
  · exact Nat.sub_add_cancel hpos

/-- Three actions, two of them without a name. The door that is opened in a fourth one is forgotten
with it, and the session stands at the second snapshot. -/
def lampRun : List Operation :=
  [.setValue "lamp" { atoms := ["lit"], integer := 2 }, .createSnapshot, .setAsset "music" true,
    .createSnapshot, .setAsset "music" false, .setAction "lamp" "rub", .createSnapshot,
    .setValue "door" { atoms := ["open"] }, .createSnapshot, .undo, .trim, .addBookmark none, .undo]

/-- A session with an empty history, an empty set of assets and empty entries is read back. -/
theorem round_trip_lampRun :
    (run (named "lamp") lampRun).history.queue = ["", "", "lamp:rub"] ∧
      (run (named "lamp") lampRun).history.assets = [["music"], []] ∧
      (run (named "lamp") lampRun).history.tracked = [⟨"lamp", ["lit,#2"]⟩, ⟨"door", []⟩] ∧
      ∃ t, ofFile (run (named "lamp") lampRun).fileText.toUTF8.toList = .ok t ∧
        t.history = (run (named "lamp") lampRun).history := by
  obtain ⟨t, hread, -, hhistory, -⟩ := round_trip "lamp" lampRun
    ⟨by decide +kernel, by decide +kernel, by decide +kernel⟩
    ⟨by decide +kernel, by decide +kernel, by decide +kernel, by decide +kernel⟩
  exact ⟨by decide +kernel, by decide +kernel, by decide +kernel, t, hread, hhistory⟩

end Session

end Gamebook
