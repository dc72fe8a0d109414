import Gamebook.Proofs.Session.Contents

/-!
# Loading

Whatever file is accepted, the session read from it is legible (`Contents.Sound.legible`): its names
are distinct, its snapshots in order and within its logs. The history of a name that a file gives
more than once is the last of them, though (`History.ofLogs_sound`), while the changes speak of the
positions in the file. So a change may point nowhere when the logs are put together, and the file
that is then written is refused. Where each change still points somewhere, and only there, the
session is the same when it is written and read again (`ofFile_fileText`).
-/

namespace Gamebook

namespace History

/-! ### Names given more than once -/

/-- A variable is put in the place of the one of its name, or at the end. -/
theorem putVariable_cases (h : History) (v : Variable) :
    (∃ id, (∃ w ∈ h.tracked[id]?, w.name = v.name) ∧
      h.putVariable v = { h with tracked := h.tracked.set id v }) ∨
    ((∀ w ∈ h.tracked, w.name ≠ v.name) ∧
      h.putVariable v = { h with tracked := h.tracked ++ [v] }) := by
  rcases h.register_cases v.name with ⟨w, hw, hname, heq⟩ | ⟨hfresh, -, -⟩
  · refine .inl ⟨(h.register v.name).2, ⟨w, hw, hname⟩, ?_⟩
    obtain ⟨hlt, rfl⟩ := List.getElem?_eq_some_iff.mp hw
    have hnew : ∀ w : Variable, w.name = v.name → { w with values := v.values } = v := by
      rintro ⟨name, values⟩ rfl
      rfl
    simp only [putVariable, heq, List.modify_eq_set_get _ hlt, List.get_eq_getElem]
    rw [hnew _ hname]
  · exact .inr ⟨hfresh, putVariable_eq hfresh⟩

/-- Logs put together of what a file gives: all is taken from there, and no name is there twice. -/
structure Gathered (vs : List Variable) (h : History) : Prop where
  nodup_names : (h.tracked.map (·.name)).Nodup
  given : ∀ v ∈ h.tracked, v ∈ vs
  length_le : h.tracked.length ≤ vs.length

theorem Gathered.putVariable {vs : List Variable} {h : History} (hg : h.Gathered vs)
    (v : Variable) : (h.putVariable v).Gathered (vs ++ [v]) := by
  rcases h.putVariable_cases v with ⟨id, ⟨w, hw, hname⟩, heq⟩ | ⟨hfresh, heq⟩
  · obtain ⟨hlt, rfl⟩ := List.getElem?_eq_some_iff.mp hw
    rw [heq]
    refine ⟨?_, fun u hu => ?_, ?_⟩
    · -- the variable in that place has the same name, so the names stay as they are
      have hset : (h.tracked.set id v).map (·.name) = h.tracked.map (·.name) := by
        rw [List.map_set, ← hname, ← List.getElem_map fun w : Variable => w.name]
        · exact List.set_getElem_self _
        · simpa using hlt
      rw [hset]
      exact hg.nodup_names
    · rcases List.mem_or_eq_of_mem_set hu with hu | rfl
      · exact List.mem_append_left _ (hg.given u hu)
      · simp
    · simpa using hg.length_le.trans (Nat.le_succ _)
  · rw [heq]
    refine ⟨?_, fun u hu => ?_, ?_⟩
    · rw [List.map_append, List.nodup_append]
      refine ⟨hg.nodup_names, List.nodup_singleton _, ?_⟩
      rintro a ha b hb rfl
      obtain ⟨w, hw, rfl⟩ := List.mem_map.mp ha
      exact hfresh w hw (by simpa using hb)
    · rcases List.mem_append.mp hu with hu | hu
      · exact List.mem_append_left _ (hg.given u hu)
      · exact List.mem_append_right _ hu
    · simpa using hg.length_le

theorem ofLogs_concat (queue : List String) (assets : List (List String)) (vs : List Variable)
    (v : Variable) (changes : List (Nat × Nat)) :
    ofLogs queue assets (vs ++ [v]) changes = (ofLogs queue assets vs changes).putVariable v := by
  rw [ofLogs, List.foldl_concat]
  rfl

theorem gathered_ofLogs (queue : List String) (assets : List (List String)) (vs : List Variable)
    (changes : List (Nat × Nat)) : (ofLogs queue assets vs changes).Gathered vs := by
  induction vs using List.reverseRecOn with
  | nil => exact ⟨List.nodup_nil, by simp [ofLogs], le_rfl⟩
  | append_singleton vs v ih =>
    rw [ofLogs_concat]
    exact ih.putVariable v

/-- Putting logs together leaves all of them alone but those of the variables. -/
theorem ofLogs_logs (queue : List String) (assets : List (List String)) (vs : List Variable)
    (changes : List (Nat × Nat)) :
    (ofLogs queue assets vs changes).queue = queue ∧
      (ofLogs queue assets vs changes).assets = assets ∧
      (ofLogs queue assets vs changes).changes = changes := by
  induction vs using List.reverseRecOn with
  | nil => exact ⟨rfl, rfl, rfl⟩
  | append_singleton vs v ih =>
    rw [ofLogs_concat]
    rcases (ofLogs queue assets vs changes).putVariable_cases v with ⟨id, -, heq⟩ | ⟨-, heq⟩ <;>
      rw [heq] <;> exact ih

end History

namespace Session

variable {s t : Session} {c : Contents} {bytes : List UInt8}

/-! ### What is put together -/

@[simp] theorem Contents.session_history (c : Contents) : c.session.history = c.history := rfl

theorem Contents.gathered (c : Contents) : c.history.Gathered c.tracked :=
  History.gathered_ofLogs _ _ _ _

@[simp] theorem Contents.history_queue (c : Contents) : c.history.queue = c.queue :=
  (History.ofLogs_logs _ _ _ _).1

@[simp] theorem Contents.history_assets (c : Contents) : c.history.assets = c.assets :=
  (History.ofLogs_logs _ _ _ _).2.1

@[simp] theorem Contents.history_changes (c : Contents) : c.history.changes = c.changes :=
  (History.ofLogs_logs _ _ _ _).2.2

theorem Contents.tip_history (c : Contents) : c.history.tip = c.tip := by
  simp [History.tip, Contents.tip]

/-- A session that is read stands at its newest snapshot. -/
theorem Contents.reopened_session (c : Contents) : c.session.reopened = c.session := rfl

/-- If no name is given twice, the variables are those of the file. -/
theorem Contents.tracked_history (hnd : (c.tracked.map (·.name)).Nodup) :
    c.history.tracked = c.tracked :=
  congrArg History.tracked (History.ofLogs_eq (h := ⟨c.queue, c.assets, c.tracked, c.changes⟩) hnd)

/-- The session put together of sound contents is legible. -/
theorem Contents.Sound.legible (hc : c.Sound) : c.session.Legible where
  name := hc.name
  queue := by simpa using hc.queue
  assets := by simpa using hc.assets
  tracked v hv := hc.tracked v (c.gathered.given v hv)
  bookmarks e he := (hc.bookmarks e he).2
  nodup_names := c.gathered.nodup_names
  first := rfl
  ordered := hc.ordered
  within p hp := by
    rw [Contents.session_history, Contents.tip_history]
    rcases List.mem_cons.mp hp with rfl | hp
    · simp [Snapshot.follows, Snapshot.start]
    · exact hc.within p hp
  bookmarks_le e he := (hc.bookmarks e he).1
  counts_le := by
    simpa using ⟨hc.counts_le.1, hc.counts_le.2.1, c.gathered.length_le.trans hc.counts_le.2.2⟩
  changes_le := by simpa using hc.changes_le
  snapshots_le p hp := by
    rcases List.mem_cons.mp hp with rfl | hp
    · simp [Snapshot.start]
    · exact hc.snapshots_le p hp

/-- If no name is given twice, every change points somewhere. -/
theorem Contents.Sound.resolves (hc : c.Sound) (hnd : (c.tracked.map (·.name)).Nodup) :
    c.history.Resolves := by
  intro d hd
  rw [Contents.tracked_history hnd]
  exact hc.points d (by simpa using hd)

/-- A session that is read is put together of sound contents. -/
theorem contents_of_ofFile (h : ofFile bytes = .ok s) :
    ∃ c, contents bytes = .ok c ∧ c.Sound ∧ s = c.session := by
  rw [ofFile_eq] at h
  cases hc : contents bytes with
  | error e => rw [hc] at h; cases h
  | ok c =>
    rw [hc] at h
    exact ⟨c, rfl, sound_of_contents hc, (Except.ok.inj h).symm⟩

/-! ### What loading makes sure of -/

/-- The bytes of a file with some lines. -/
def bytesOf (lines : List String) : List UInt8 :=
  (String.join (lines.map fun line => line ++ "\n")).toUTF8.toList

/-- What an accepted file gives. Names are distinct; the snapshots begin with the start of the
story, are in order, and speak of no more than there is in the logs; the session stands at the
newest of them, with values and assets from there. The logs are those of the file, in which each
change points into the history at its position. If the file names no variable twice, so are the
variables, and every change of the session stands for a value. -/
theorem ofFile_sound (h : ofFile bytes = .ok s) :
    (s.history.tracked.map (·.name)).Nodup ∧
      s.snapshots[0]? = some .start ∧
      s.snapshots.Pairwise (fun p q : Snapshot => q.follows p = true) ∧
      (∀ p ∈ s.snapshots, s.history.tip.follows p = true) ∧
      s.current + 1 = s.snapshots.length ∧
      s.values = (s.restore s.current).values ∧
      s.assets = (s.restore s.current).assets ∧
      ∃ c, contents bytes = .ok c ∧
        s.name = c.name ∧
        s.history.queue = c.queue ∧
        s.history.assets = c.assets ∧
        s.history.changes = c.changes ∧
        s.snapshots = .start :: c.snapshots ∧
        s.bookmarks = c.bookmarks ∧
        (∀ v ∈ s.history.tracked, v ∈ c.tracked) ∧
        (∀ d ∈ c.changes, History.Points c.tracked d) ∧
        ((c.tracked.map (·.name)).Nodup →
          s.history.tracked = c.tracked ∧ s.history.Resolves) := by
  obtain ⟨c, hcontents, hsound, rfl⟩ := contents_of_ofFile h
  have hlegible := hsound.legible
  refine ⟨hlegible.nodup_names, hlegible.first, hlegible.ordered, hlegible.within, rfl, rfl, rfl, c,
    hcontents, rfl, c.history_queue, c.history_assets, c.history_changes, rfl, rfl,
    c.gathered.given, hsound.points, fun hnd => ?_⟩
  exact ⟨Contents.tracked_history hnd, hsound.resolves hnd⟩

/-- The file of two variables, with numbers as nobody writes them, and a line behind its end. -/
def lampLines : List String :=
  ["kept", " +1", "lamp:rub", "1", "music", "", "2", "lamp", "0", "lit,#2", "", "door", "01",
    "open,#0", "", "0,1", "1 , +1", "", "1,1,02", "", "0", "a lamp", "", "END", "more"]

/-- What the file says. -/
def lampSession : Session where
  name := "kept"
  values := .ofList [("door", { atoms := ["open"] }), ("lamp", { atoms := ["lit"], integer := 2 })]
  assets := .ofList [("music", ())]
  history :=
    { queue := ["lamp:rub"], assets := [["music"]],
      tracked := [⟨"lamp", ["lit,#2"]⟩, ⟨"door", ["open,#0"]⟩], changes := [(0, 1), (1, 1)] }
  snapshots := [.start, ⟨1, 1, 2⟩]
  current := 1
  bookmarks := .ofList [(0, "a lamp")]

theorem ofFile_lampLines : ofFile (bytesOf lampLines) = .ok lampSession :=
  (ofFile_lines (by decide +kernel)).trans rfl

/-- Each change of the session that is read stands for a value. -/
theorem ofFile_sound_lamp :
    ofFile (bytesOf lampLines) = .ok lampSession ∧
      ∃ c, contents (bytesOf lampLines) = .ok c ∧ lampSession.history.changes = c.changes ∧
        ∀ d ∈ c.changes, History.Points c.tracked d := by
  obtain ⟨-, -, -, -, -, -, -, c, hcontents, -, -, -, hchanges, -, -, -, hpoints, -⟩ :=
    ofFile_sound ofFile_lampLines
  exact ⟨ofFile_lampLines, c, hcontents, hchanges, hpoints⟩

/-- A file in which hardly anything fits together. -/
def strayLines : List String :=
  ["kept", "1", "lamp:rub", "0", "3", "lamp", "0", "lit,#0", "lit,#1", "", "door", "1", "open,#0",
    "", "door", "2", "", "0,2", "1,1", "", "1,0,1", "", "7", "nowhere", "", "END"]

/-- The file is accepted, though a bookmark is on no action, the changes do not count up, one stands
for no value, and the last snapshot falls short of the logs. -/
theorem ofFile_stray :
    ∃ s, ofFile (bytesOf strayLines) = .ok s ∧
      s.bookmarks.keys = [7] ∧ s.history.queue.length = 1 ∧
      s.history.tracked = [⟨"lamp", ["lit,#0", "lit,#1"]⟩, ⟨"door", []⟩] ∧
      History.lengths s.history.changes 0 = [2] ∧ (1, 1) ∈ s.history.changes ∧
      ¬ s.history.Resolves ∧
      s.snapshots.getLast? = some ⟨1, 0, 1⟩ ∧ s.history.tip = ⟨1, 0, 2⟩ := by
  have hread : ofLines (strayLines.map some) = .ok
      { name := "kept", values := .ofList [("lamp", { atoms := ["lit"], integer := 1 })],
        history :=
          { queue := ["lamp:rub"],
            tracked := [⟨"lamp", ["lit,#0", "lit,#1"]⟩, ⟨"door", []⟩],
            changes := [(0, 2), (1, 1)] },
        snapshots := [.start, ⟨1, 0, 1⟩], current := 1,
        bookmarks := .ofList [(7, "nowhere")] } := rfl
  have hfile := (ofFile_lines (by decide +kernel)).trans hread
  exact ⟨_, hfile, rfl, rfl, rfl, rfl, by decide, by decide, rfl, rfl⟩

/-! ### Saving what was loaded -/

/-- A session that was loaded is the same when it is saved and loaded again, if each of its changes
points into the history of its variable, as it does when the file names no variable twice. The file
saved is accepted in no other case. -/
theorem ofFile_fileText (h : ofFile bytes = .ok s) :
    (s.history.Resolves → ofFile s.fileText.toUTF8.toList = .ok s) ∧
      (∀ t, ofFile s.fileText.toUTF8.toList = .ok t → s.history.Resolves) ∧
      ∃ c, contents bytes = .ok c ∧
        ((c.tracked.map (·.name)).Nodup → s.history.Resolves) := by
  obtain ⟨c, hcontents, hsound, rfl⟩ := contents_of_ofFile h
  have hlegible := hsound.legible
  have hlines : ofFile c.session.fileText.toUTF8.toList = ofLines (c.session.fileLines.map some) :=
    ofFile_lines hlegible.isLine_fileLines
  refine ⟨fun hr => ?_, fun t ht => ?_, c, hcontents, hsound.resolves⟩
  · rw [hlines, hlegible.ofLines_fileLines hr, Contents.reopened_session]
  · rw [hlines] at ht
    exact hlegible.resolves_of_ofLines ht

/-- The session with the odd numbers is the same when it is saved and loaded again. -/
theorem ofFile_fileText_lamp :
    ofFile (bytesOf lampLines) = .ok lampSession ∧ lampSession.history.Resolves ∧
      ofFile lampSession.fileText.toUTF8.toList = .ok lampSession := by
  have hresolves : lampSession.history.Resolves := by decide
  exact ⟨ofFile_lampLines, hresolves, (ofFile_fileText ofFile_lampLines).1 hresolves⟩

/-- A file that names a variable twice, and has a change for each of the two. -/
def twiceLines : List String :=
  ["kept", "0", "0", "2", "lamp", "0", "lit,#0", "", "lamp", "1", "off,#0", "", "0,1", "1,1", "",
    "", "", "END"]

/-- What the file says: the second change points to the second of the variables, of which there is
one only. -/
def twiceSession : Session :=
  { fresh with
    name := "kept"
    history := { tracked := [⟨"lamp", ["off,#0"]⟩], changes := [(0, 1), (1, 1)] } }

/-- The file is accepted, and the one that is saved then is refused for the second change. -/
theorem ofFile_fileText_twice :
    ofFile (bytesOf twiceLines) = .ok twiceSession ∧
      ofFile twiceSession.fileText.toUTF8.toList = .error (.layout 11 (.changeOutside "1,1")) :=
  ⟨(ofFile_lines (by decide +kernel)).trans rfl, (ofFile_lines (by decide +kernel)).trans rfl⟩

end Session

end Gamebook
